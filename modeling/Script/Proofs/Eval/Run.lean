/-
  Script/Proofs/Eval/Run.lean
  ===========================
  **Whole runs of the machine.**

  What can be evaluated by itself is a task: an expression, a statement, a
  block or a program in a scope, a round of a loop, or a call of a value.  A
  task that is performed is a machine that starts on an empty stack and halts,
  so what each step keeps holds where it halts.

  Main statements: `Machine.Steps.keeps`, `Task.steps_of_perform`, and
  `Machine.run_error`: an error that is on its way is the end of the run.
-/
import Mathlib.Logic.Relation
import Script.Proofs.Value.Part
import Script.Session

namespace Script

namespace Machine

section Runs

variable [Digesting]

/-- The machine gets from one configuration to another. -/
abbrev Steps : Machine → Machine → Prop :=
  Relation.ReflTransGen fun m m' => m.step = .running m'

theorem Steps.keeps {P : Machine → Prop}
    (step : ∀ {m m' : Machine}, P m → m.step = .running m' → P m') {m m' : Machine}
    (steps : Steps m m') (start : P m) : P m' := by
  induction steps with
  | refl => exact start
  | tail _ next ih => exact step ih next

theorem steps_of_run {fuel : Nat} {m : Machine} {o : Outcome} {s : Store}
    (h : run fuel m = some (o, s)) : ∃ m', Steps m m' ∧ m'.step = .halted o s := by
  induction fuel generalizing m with
  | zero => cases h
  | succ fuel ih =>
    simp only [run] at h
    split at h
    · rename_i m₁ next
      obtain ⟨m', steps, halts⟩ := ih h
      exact ⟨m', .head next steps, halts⟩
    · rename_i halts
      cases h
      exact ⟨m, .refl, halts⟩

/-- A machine that gets to one that halts ends as that does, given steps enough. -/
theorem run_of_steps_halted {m m' : Machine} {o : Outcome} {s : Store} (steps : Steps m m')
    (halts : m'.step = .halted o s) : ∃ fuel, ∀ n ≥ fuel, run n m = some (o, s) := by
  induction steps using Relation.ReflTransGen.head_induction_on with
  | refl =>
    refine ⟨1, fun n enough => ?_⟩
    obtain _ | n := n
    · cases enough
    rw [run, halts]
  | head next _ ih =>
    obtain ⟨fuel, runs⟩ := ih
    refine ⟨fuel + 1, fun n enough => ?_⟩
    obtain _ | n := n
    · cases enough
    rw [run, next]
    exact runs n (Nat.le_of_succ_le_succ enough)

/-- A run from a configuration goes through every configuration that the
    machine gets to from there. -/
theorem run_of_steps {fuel : Nat} {m m' : Machine} {r : Outcome × Store} (steps : Steps m m')
    (h : run fuel m = some r) : ∃ rest, run rest m' = some r := by
  induction steps with
  | refl => exact ⟨fuel, h⟩
  | tail _ next ih =>
    obtain ⟨_ | rest, goes⟩ := ih
    · cases goes
    · rw [run, next] at goes
      exact ⟨rest, goes⟩

/-- A machine halts on a value that nothing waits for, or on a call that leaves
    the program; either way its store stays. -/
theorem halted_cases {m : Machine} {o : Outcome} {s : Store} (h : m.step = .halted o s) :
    m.store = s ∧
      ((∃ code, o = .exit code) ∨ ∃ v, o = .value v ∧ m.control = .give v ∧ m.stack = []) := by
  obtain ⟨control, stack, store⟩ := m
  cases control with
  | eval e i => cases h
  | exec b i => cases h
  | call callee args =>
    simp only [step, callValue] at h
    split at h
    · split at h <;> cases h
    · split at h
      · cases h
      · cases h
      · rename_i code _
        cases h
        exact ⟨rfl, .inl ⟨code, rfl⟩⟩
    · cases h
  | give v =>
    cases stack with
    | nil =>
      cases h
      exact ⟨rfl, .inr ⟨v, rfl, rfl, rfl⟩⟩
    | cons f stack =>
      simp only [step] at h
      split at h <;> cases h

end Runs

/-! ### Calls -/

/-- What holds of all arguments and of null holds of all that a call binds. -/
theorem forall_mem_parameterBindings {P : Value → Prop} (null : P .null) (params : List String)
    (args : List Value) {t : Table String Value} (ht : ∀ e ∈ t.entries, P e.2)
    (ha : ∀ v ∈ args, P v) : ∀ e ∈ (parameterBindings params args t).entries, P e.2 := by
  induction params generalizing args t with
  | nil => exact ht
  | cons p ps ih =>
    cases args with
    | nil => exact ih [] (Table.forall_mem_insert ht null) ha
    | cons v vs =>
      obtain ⟨hv, hvs⟩ := List.forall_mem_cons.mp ha
      exact ih vs (Table.forall_mem_insert ht hv) hvs

/-- A call starts the body of a function in a new scope, or answers at once:
    with what a built-in function replies, or with an error. -/
theorem callValue_cases {callee : Value} {args : List Value} {stack : List Frame} {store : Store}
    {m : Machine} (h : callValue callee args stack store = .running m) :
    (∃ n params body scope, callee = .function n params body scope ∧ store.depth < maxCallDepth ∧
      m = ⟨.exec body store.heap.size, .leave :: stack,
        { store with
          heap := store.heap.alloc (some scope) (parameterBindings params args .empty)
          depth := store.depth + 1 }⟩) ∨
    (∃ b v text, callee = .builtin b ∧ (b.call args).value? = some v ∧
      m = ⟨.give v, stack, store.print text⟩) ∨
    ∃ f : Failure, m = ⟨.give f.value, stack, store⟩ := by
  unfold callValue at h
  split at h
  · rename_i n params body scope
    split at h
    · rename_i shallow
      cases h
      exact .inl ⟨n, params, body, scope, rfl, shallow, rfl⟩
    · cases h
      exact .inr (.inr ⟨_, rfl⟩)
  · rename_i b
    split at h
    · rename_i v reply
      cases h
      exact .inr (.inl ⟨b, v, "", rfl, by rw [reply]; rfl, by simp [Store.print]⟩)
    · rename_i line v reply
      cases h
      exact .inr (.inl ⟨b, v, line, rfl, by rw [reply]; rfl, rfl⟩)
    · cases h
  · cases h
    exact .inr (.inr ⟨_, rfl⟩)

/-! ### Errors on their way -/

section Errors

variable [Digesting]

theorem step_error {v : Value} (failed : v.isError = true) (f : Frame) (stack : List Frame)
    (s : Store) : ∃ s', step ⟨.give v, f :: stack, s⟩ = .running ⟨.give v, stack, s'⟩ := by
  simp only [step, failed, if_true]
  cases f <;> exact ⟨_, rfl⟩

/-- No frame keeps an error: a run that gives one ends with it. -/
theorem run_error {v : Value} (failed : v.isError = true) {fuel : Nat} {stack : List Frame}
    {s s' : Store} {o : Outcome} (h : run fuel ⟨.give v, stack, s⟩ = some (o, s')) :
    o = .value v := by
  induction fuel generalizing stack s with
  | zero => cases h
  | succ fuel ih =>
    cases stack with
    | nil =>
      cases h
      rfl
    | cons f stack =>
      obtain ⟨s₁, next⟩ := step_error failed f stack s
      simp only [run, next] at h
      exact ih h

end Errors

end Machine

/-! ### Tasks -/

/-- What can be evaluated by itself. -/
inductive Task where
  | expr (e : Expr) (scope : ScopeId)
  | stmt (st : Stmt) (scope : ScopeId)
  | block (body : Block) (scope : ScopeId)
  | program (p : Program) (scope : ScopeId)
  /-- The body of a loop, for one round, in a scope of its own. -/
  | round (body : Block) (scope : ScopeId)
  | apply (callee : Value) (args : List Value)

namespace Task

/-- The machine at the start of a task. -/
def enter (t : Task) (s : Store) : Machine :=
  match t with
  | .expr e scope => ⟨.eval e scope, [], s⟩
  | .stmt st scope => Machine.execStmt st scope [] s
  | .block body scope => ⟨.exec body scope, [], s⟩
  | .program p scope => ⟨.exec p.statements scope, [], s⟩
  | .round body scope =>
    let (inner, s) := s.alloc (some scope) .empty
    ⟨.exec body inner, [], s⟩
  | .apply callee args => ⟨.call callee args, [], s⟩

/-- A return at the top of a program ends it with its payload. -/
def outcome : Task → Outcome → Outcome
  | .program .., o => o.unreturned
  | _, o => o

/-- Nothing is printed yet when a task is performed. -/
def start (t : Task) (s : Store) : Machine := t.enter { s with output := "" }

/-- Perform a task in at most `fuel` steps, and report what it printed. -/
def perform [Digesting] (t : Task) (fuel : Nat) (s : Store) : Option (Answer × Store) :=
  (Machine.run fuel (t.start s)).map fun (o, s) =>
    (⟨t.outcome o, s.output⟩, { s with output := "" })

theorem perform_program [Digesting] (p : Program) (scope : ScopeId) (fuel : Nat) (s : Store) :
    (program p scope).perform fuel s = s.runProgram fuel p scope := by
  simp only [perform, Store.runProgram, Store.perform, Option.map_map]
  rfl

theorem perform_apply [Digesting] (callee : Value) (args : List Value) (fuel : Nat) (s : Store) :
    (apply callee args).perform fuel s = s.apply fuel callee args := rfl

theorem steps_of_perform [Digesting] {t : Task} {fuel : Nat} {s s' : Store} {answer : Answer}
    (h : t.perform fuel s = some (answer, s')) :
    ∃ m o, Machine.Steps (t.start s) m ∧ m.step = .halted o m.store ∧
      answer = ⟨t.outcome o, m.store.output⟩ ∧ s' = { m.store with output := "" } := by
  obtain ⟨⟨o, s₁⟩, halts, done⟩ := Option.map_eq_some_iff.mp h
  obtain ⟨m, steps, halted⟩ := Machine.steps_of_run halts
  obtain ⟨rfl, -⟩ := Machine.halted_cases halted
  cases done
  exact ⟨m, o, steps, halted, rfl, rfl⟩

end Task

end Script
