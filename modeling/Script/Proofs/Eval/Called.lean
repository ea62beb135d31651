/-
  Script/Proofs/Eval/Called.lean
  ==============================
  **A program as the body of a function that is called at once.**

  The body of a call runs in a scope of its own inside the root, with one more
  function value made and one more call active than the program by itself.
  None of this can be seen: the scope around it binds nothing, the numbers of
  function values are not shown, and the number of calls shows in one error
  only.  So both runs are the run of the program on its own, carried to two
  settings.

  Main statement: `Session.runProgram_of_called`.
-/
import Mathlib
import Script.Proofs.Eval.Above
import Script.Proofs.Eval.Alone

namespace Script

/-! ### What is seen of an outcome -/

/-- The text of the value that a run ends with, or its code. -/
def Outcome.shown : Outcome → String ⊕ Int32
  | .value v => .inl v.render
  | .exit code => .inr code

namespace Outcome

theorem shown_unreturned (o : Outcome) : o.unreturned.shown = o.shown := by
  cases o with
  | value v => cases v <;> rfl
  | exit code => rfl

theorem shown_transport {T : Transport} (same : T.name = id) (o : Outcome) :
    (o.transport T).shown = o.shown := by
  cases o with
  | value v => exact congrArg Sum.inl (Value.render_transport_of_id same v)
  | exit code => rfl

end Outcome

/-! ### The program as a function body -/

/-- The program whose one statement calls the function literal, without
    parameters, that has the statements of another program as its body. -/
def Program.called (p : Program) : Program := ⟨[.bare (.call (.function [] p.statements) [])]⟩

namespace Machine

variable [Digesting] (p : Program) (i : ScopeId) (s : Store)

theorem steps_call :
    Steps ⟨.exec p.called.statements i, [], s⟩
      ⟨.call (.function s.functions [] p.statements i) [], [.sequence [] i],
        { s with functions := s.functions + 1 }⟩ :=
  .head rfl (.head rfl (.head rfl (.single rfl)))

theorem step_leave (v : Value) (k : List Frame) :
    step ⟨.give v, .leave :: k, s⟩ =
      .running ⟨.give v.unreturned, k, { s with depth := s.depth - 1 }⟩ := by
  cases v <;> rfl

theorem step_last (v : Value) (k : List Frame) :
    step ⟨.give v, .sequence [] i :: k, s⟩ = .running ⟨.give v, k, s⟩ := by
  cases v <;> rfl

theorem steps_leave (v : Value) :
    Steps ⟨.give v, [.leave, .sequence [] i], s⟩
      ⟨.give v.unreturned, [], { s with depth := s.depth - 1 }⟩ :=
  .head (step_leave s v _) (.single (step_last i _ v.unreturned []))

/-- The program that calls the function ends as the body ends, up to the layer
    of a return, or with the error of too many calls. -/
theorem run_called {fuel : Nat} {o : Outcome} {s' : Store}
    (h : run fuel ⟨.exec p.called.statements i, [], s⟩ = some (o, s'))
    (other : o ≠ .value Failure.stackOverflow.value) :
    ∃ rest o₁ s₁, run rest ⟨.exec p.statements s.heap.size, [],
        ⟨s.heap.alloc (some i) .empty, s.functions + 1, s.depth + 1, s.output⟩⟩ = some (o₁, s₁) ∧
      s.depth < maxCallDepth ∧ o₁ ≠ .value Failure.stackOverflow.value ∧
      o₁.unreturned = o ∧ s₁.output = s'.output := by
  obtain ⟨_ | rest, called⟩ := run_of_steps (steps_call p i s) h
  · cases called
  by_cases room : s.depth < maxCallDepth
  · have enters : step ⟨.call (.function s.functions [] p.statements i) [], [.sequence [] i],
        { s with functions := s.functions + 1 }⟩ =
        .running (above ⟨.exec p.statements s.heap.size, [],
          ⟨s.heap.alloc (some i) .empty, s.functions + 1, s.depth + 1, s.output⟩⟩
          [.leave, .sequence [] i]) := by
      simp only [step, callValue, if_pos room]
      rfl
    rw [run, enters] at called
    obtain ⟨code, rfl, exits⟩ | ⟨v, s₁, ends, rest', -, leaves⟩ := run_above called
    · exact ⟨rest, _, s', exits, room, other, rfl, rfl⟩
    obtain ⟨_ | _, halts⟩ := run_of_steps (steps_leave i s₁ v) leaves
    · cases halts
    cases halts
    refine ⟨rest, .value v, s₁, ends, room, ?_, rfl, rfl⟩
    rintro ⟨⟩
    exact other rfl
  · have overflows : step ⟨.call (.function s.functions [] p.statements i) [], [.sequence [] i],
        { s with functions := s.functions + 1 }⟩ =
        .running ⟨.give Failure.stackOverflow.value, [.sequence [] i],
          { s with functions := s.functions + 1 }⟩ := by
      simp only [step, callValue, if_neg room]
    rw [run, overflows] at called
    exact absurd (run_error rfl called) other

end Machine

/-! ### Both runs -/

/-- Runs of a machine in two settings with its names look the same. -/
theorem Machine.run_settings [Digesting] {T U : Transport} (same₁ : T.name = id)
    (same₂ : U.name = id) {m : Machine} {fuel : Nat} {o₁ : Outcome} {s₁ : Store}
    (h : run fuel (m.transport T) = some (o₁, s₁)) :
    ∃ o₂ s₂, run fuel (m.transport U) = some (o₂, s₂) ∧ o₂.shown = o₁.shown ∧
      s₂.output = s₁.output := by
  rw [run_transport fun m' _ => discreet_of_id same₁ m'] at h
  obtain ⟨⟨o, s⟩, runs, carried⟩ := Option.map_eq_some_iff.mp h
  cases carried
  refine ⟨o.transport U, s.transport U, ?_, ?_, rfl⟩
  · rw [run_transport fun m' _ => discreet_of_id same₂ m', runs]
    rfl
  · rw [Outcome.shown_transport same₁, Outcome.shown_transport same₂]

namespace Session

/-- No name is seen from a new root scope. -/
theorem owner?_root (s : Store) (name : String) :
    (s.heap.alloc none .empty).owner? s.heap.size name = none := by
  rw [Heap.owner?, Heap.scopes_alloc_size]
  rfl

/-- A program does what the call of the function with its statements does, on a
    new root scope of any store, unless that exceeds the limit on calls: it
    ends, having printed the same, and with the same text or the same code. -/
theorem runProgram_of_called [Digesting] (p : Program) (s : Store) {fuel : Nat} {answer : Answer}
    {after : Session}
    (h : (ofStore s).runProgram fuel p.called = some (answer, after))
    (other : answer.outcome ≠ .value Failure.stackOverflow.value) :
    ∃ rest answer' after', (ofStore s).runProgram rest p = some (answer', after') ∧
      answer'.printed = answer.printed ∧ answer'.outcome.shown = answer.outcome.shown := by
  let beside : Transport := .behind s.heap none s.functions nofun nofun
  let inside : Transport := .behind (s.heap.alloc none .empty) (some s.heap.size)
    (s.functions + 1) (by rintro i name ⟨⟩; exact owner?_root s name)
    (by rintro i ⟨⟩; simp)
  rw [runProgram_ofStore] at h
  obtain ⟨⟨o, s'⟩, ran, ends⟩ := Option.map_eq_some_iff.mp h
  cases ends
  have other' : o ≠ .value Failure.stackOverflow.value := by
    rintro rfl
    exact other rfl
  obtain ⟨rest, o₁, s₁, body, room, other₁, rfl, printed⟩ := Machine.run_called p _ _ ran other'
  -- the body runs as well with one call fewer
  have balanced : Machine.Balanced (s.depth + 1) ⟨.exec p.statements (s.heap.alloc none .empty).size,
      [], ⟨(s.heap.alloc none .empty).alloc (some s.heap.size) .empty, s.functions + 1,
        s.depth + 1, ""⟩⟩ := ⟨rfl, room⟩
  have level : Machine.run rest ((p.alone s.depth).transport inside) =
      some (o₁, s₁.atDepth (s.depth + (s₁.depth - (s.depth + 1)))) := by
    rw [p.transport_alone_of_id rfl]
    exact Machine.rebase_run (Nat.le_succ s.depth) balanced body other₁
  obtain ⟨o₂, s₂, runs, shown, printed₂⟩ :=
    Machine.run_settings (U := beside) rfl rfl level
  rw [p.transport_alone_of_id rfl] at runs
  refine ⟨rest, ⟨o₂.unreturned, s₂.output⟩, ⟨{ s₂ with output := "" }, s.heap.size⟩, ?_, ?_, ?_⟩
  · rw [runProgram_ofStore]
    exact congrArg (Option.map _) runs
  · exact printed₂.trans printed
  · simp only [Outcome.shown_unreturned, shown]

/-- A program that makes a closure, prints and returns at its top. -/
theorem runProgram_of_called_twice :
    let _ : Digesting := ⟨fun _ => 0⟩
    let p : Program := ⟨[
      .define "twice" (.function ["n"]
        [.return (.binary (.identifier "n") .add (.identifier "n"))]),
      .bare (.call (.identifier "print") [.call (.identifier "twice") [.integer 4]]),
      .return (.array [.call (.identifier "twice") [.integer 1]])]⟩
    let answer : Answer := ⟨.value (.array [.integer 2]), "8 \n"⟩
    ((ofStore .empty).runProgram 60 p.called).map Prod.fst = some answer ∧
      ∃ rest answer' after', (ofStore .empty).runProgram rest p = some (answer', after') ∧
        answer'.printed = answer.printed ∧ answer'.outcome.shown = answer.outcome.shown := by
  intro _ p answer
  have run : ((ofStore .empty).runProgram 60 p.called).map Prod.fst = some answer := by cbv
  refine ⟨run, ?_⟩
  obtain ⟨⟨first, after⟩, ran, same⟩ := Option.map_eq_some_iff.mp run
  obtain rfl : first = answer := same
  exact runProgram_of_called p .empty ran (by simp [Failure.value, answer])

end Session

end Script
