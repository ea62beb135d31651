/-
  Script/Proofs/Session/Run.lean
  ==============================
  **One evaluation of a session.**

  To evaluate a text is to run the statements that it denotes, in the root scope
  and from an empty stack.  Between evaluations no call is active, so the number
  of calls that may be nested is always the same.

  Main statements: `Session.eval_eq` and `Session.rested_of_eval`; and how a
  session answers what is given: `Session.evaluates_of_gives` for texts,
  `Session.applies_of_gives` for calls.
-/
import Script.Session
import Script.Proofs.Eval.Depth
import Script.Proofs.Eval.Given

namespace Script

namespace Session

variable {fuel : Nat} {s s' : Session} {source : String}

/-- The end of a run, as the answer of an evaluation and the session it leaves. -/
def answered (root : ScopeId) (r : Outcome × Store) : Answer × Session :=
  (⟨r.1.unreturned, r.2.output⟩, ⟨{ r.2 with output := "" }, root⟩)

/-- Where an evaluation of a program starts. -/
def start (s : Session) (p : Program) : Machine := (Task.program p s.root).start s.store

theorem eval_eq [Digesting] {p : Program} (h : Program.ofString source = .ok p) :
    s.eval fuel source = (Machine.run fuel (s.start p)).map fun r =>
      (.ok (answered s.root r).1, (answered s.root r).2) := by
  rw [eval, h]
  simp only [runProgram, Store.runProgram, Store.perform, Option.map_map]
  rfl

/-- Nothing is left over from an evaluation: no call is active, and what was
    printed has been reported. -/
structure Rested (s : Session) : Prop where
  depth : s.store.depth = 0
  output : s.store.output = ""

theorem rested_new : new.Rested := ⟨rfl, rfl⟩

theorem Rested.ofStore (rested : s.Rested) : (ofStore s.store).Rested := ⟨rested.depth, rested.output⟩

/-- A session at rest performs a task on its store as it is. -/
theorem Rested.enter (rested : s.Rested) (t : Task) : t.start s.store = t.enter s.store := by
  obtain ⟨⟨heap, functions, depth, output⟩, root⟩ := s
  cases rested.output
  rfl

/-- An evaluation that does not leave the program leaves nothing over, whether or
    not an error ended calls of it. -/
theorem rested_of_eval [Digesting] (rested : s.Rested) {result : Except (List Diagnostic) Answer}
    (h : s.eval fuel source = some (result, s'))
    (stays : ∀ code printed, result ≠ .ok ⟨.exit code, printed⟩) : s'.Rested := by
  cases read : Program.ofString source with
  | error ds =>
    rw [eval, read] at h
    cases h
    exact rested
  | ok p =>
    rw [eval_eq read] at h
    obtain ⟨⟨o, s₁⟩, halts, done⟩ := Option.map_eq_some_iff.1 h
    cases done
    have bounded : s.store.depth ≤ maxCallDepth := rested.depth ▸ Nat.zero_le _
    have balanced := (Task.program p s.root).balanced_start bounded
    obtain ⟨m, steps, halted⟩ := Machine.steps_of_run halts
    obtain ⟨rfl, ⟨code, rfl⟩ | ⟨_, -, -, done⟩⟩ := Machine.halted_cases halted
    · exact absurd rfl (stays code _)
    · have depth := (Machine.balanced_of_steps balanced steps).depth
      rw [done, rested.depth] at depth
      exact ⟨depth, rfl⟩

/-! ### Evaluations that end -/

/-- Given steps enough, the session answers the text so, and goes on as `s'`. -/
def Evaluates [Digesting] (s : Session) (source : String) (answer : Answer) (s' : Session) : Prop :=
  ∃ fuel, ∀ n ≥ fuel, s.eval n source = some (.ok answer, s')

/-- Given steps enough, the session answers the call so, and goes on as `s'`. -/
def Applies [Digesting] (s : Session) (callee : Value) (args : List Value) (answer : Answer)
    (s' : Session) : Prop :=
  ∃ fuel, ∀ n ≥ fuel, s.apply n callee args = some (answer, s')

section Gives

variable [Digesting] {v : Value} {st : Store}

theorem evaluates_of_gives {p : Program} (rested : s.Rested) (read : Program.ofString source = .ok p)
    (gives : (Task.block p.statements s.root).Gives s.store v st) :
    s.Evaluates source ⟨.value v.unreturned, st.output⟩ ⟨{ st with output := "" }, s.root⟩ := by
  obtain ⟨fuel, runs⟩ := Machine.run_of_steps_halted gives rfl
  refine ⟨fuel, ?_⟩
  intro n enough
  have run : Machine.run n (s.start p) = some (.value v, st) := by
    rw [start, rested.enter]
    exact runs n enough
  rw [eval_eq read, run]
  rfl

theorem applies_of_gives {f : Value} {args : List Value} (rested : s.Rested)
    (gives : (Task.apply f args).Gives s.store v st) :
    s.Applies f args ⟨.value v, st.output⟩ ⟨{ st with output := "" }, s.root⟩ := by
  obtain ⟨fuel, runs⟩ := Machine.run_of_steps_halted gives rfl
  refine ⟨fuel, ?_⟩
  intro n enough
  have run : Machine.run n ((Task.apply f args).start s.store) = some (.value v, st) := by
    rw [rested.enter]
    exact runs n enough
  rw [apply, ← Task.perform_apply, Task.perform, run]
  rfl

/-- An evaluation between sessions at rest, by what its statements give. -/
theorem Rested.evaluates {p : Program} (rested : s.Rested) (rested' : s'.Rested)
    (root : s'.root = s.root) (read : Program.ofString source = .ok p)
    (gives : (Task.block p.statements s.root).Gives s.store v s'.store) :
    s.Evaluates source ⟨.value v.unreturned, ""⟩ s' := by
  have evaluates := evaluates_of_gives rested read gives
  obtain ⟨⟨heap, functions, depth, output⟩, root'⟩ := s'
  obtain rfl : output = "" := rested'.output
  obtain rfl : root' = s.root := root
  exact evaluates

theorem Rested.applies {f : Value} {args : List Value} (rested : s.Rested) (rested' : s'.Rested)
    (root : s'.root = s.root) (gives : (Task.apply f args).Gives s.store v s'.store) :
    s.Applies f args ⟨.value v, ""⟩ s' := by
  have applies := applies_of_gives rested gives
  obtain ⟨⟨heap, functions, depth, output⟩, root'⟩ := s'
  obtain rfl : output = "" := rested'.output
  obtain rfl : root' = s.root := root
  exact applies

end Gives

end Session

/-- Given steps enough, the text, evaluated on its own, comes to the value. -/
def ComesTo [Digesting] (source : String) (v : Value) : Prop :=
  ∃ fuel, ∀ n ≥ fuel, evalText n source = some (.ok ⟨.value v, ""⟩)

theorem comesTo_of_evaluates [Digesting] {source : String} {v : Value} {s : Session}
    (h : Session.new.Evaluates source ⟨.value v, ""⟩ s) : ComesTo source v := by
  obtain ⟨fuel, evaluated⟩ := h
  refine ⟨fuel, ?_⟩
  intro n enough
  rw [evalText, evaluated n enough]
  rfl

end Script
