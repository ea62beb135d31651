/-
  Script/Proofs/Eval/Sequence.lean
  ================================
  **One list of statements behind another.**

  Statements that follow others run where these end, unless these end the block
  that they stand in: with an error, with the payload of a return, or by leaving
  the program.

  Main statements: `Machine.run_onto`, which puts runs together that
  `Machine.run_above` takes apart, and `Machine.run_exec_append`.
-/
import Script.Proofs.Eval.Above

namespace Script

/-- Whether nothing of a list of statements runs behind one with this outcome. -/
def Outcome.stops : Outcome → Bool
  | .value v => v.endsBlock
  | .exit _ => true

namespace Machine

variable [Digesting]

/-! ### Runs put together -/

/-- A run that ends with a value goes on, above other frames, with what they do
    with that value. -/
theorem run_onto {m : Machine} {k : List Frame} {fuel more : Nat} {v : Value} {s : Store}
    {r : Outcome × Store} (first : run fuel m = some (.value v, s))
    (second : run more ⟨.give v, k, s⟩ = some r) : ∃ total, run total (m.above k) = some r := by
  induction fuel generalizing m with
  | zero => cases first
  | succ fuel ih =>
    rw [run] at first
    cases next : m.step with
    | running m' =>
      rw [next] at first
      obtain ⟨total, runs⟩ := ih first
      exact ⟨total + 1, by rw [run, running_above next k]; exact runs⟩
    | halted o s' =>
      rw [next] at first
      cases first
      obtain ⟨code, same, -⟩ | ⟨w, same, given⟩ := halted_above next k
      · cases same
      · cases same
        exact ⟨more, by rw [given]; exact second⟩

/-- A run that leaves the program does so above other frames too. -/
theorem run_exit_onto {m : Machine} {fuel : Nat} {code : Int32} {s : Store}
    (h : run fuel m = some (.exit code, s)) (k : List Frame) :
    run fuel (m.above k) = some (.exit code, s) := by
  induction fuel generalizing m with
  | zero => cases h
  | succ fuel ih =>
    rw [run] at h ⊢
    cases next : m.step with
    | running m' =>
      rw [next] at h
      rw [running_above next k]
      exact ih h
    | halted o s' =>
      rw [next] at h
      cases h
      obtain ⟨_, _, halts⟩ | ⟨w, same, -⟩ := halted_above next k
      · rw [halts]
      · cases same

/-! ### Lists of statements -/

variable {i : ScopeId} {s s₁ : Store}

/-- What becomes of the outcome of a statement, or of statements, with others
    behind: it is that of the whole, or the others run. -/
inductive Followed (rest : Block) (i : ScopeId) (o : Outcome) (s : Store) :
    Outcome × Store → Prop
  | ended (h : o.stops = true ∨ rest = []) : Followed rest i o s (o, s)
  | went {n : Nat} {r : Outcome × Store} (goes : o.stops = false) (filled : rest ≠ [])
      (runs : run n ⟨.exec rest i, [], s⟩ = some r) : Followed rest i o s r

theorem step_sequence (v : Value) (rest : Block) (i : ScopeId) (k : List Frame) (s : Store) :
    step ⟨.give v, .sequence rest i :: k, s⟩ =
      .running (if v.endsBlock || rest.isEmpty then ⟨.give v, k, s⟩ else ⟨.exec rest i, k, s⟩) := by
  cases v <;> rfl

/-- A value that ends a block, or comes from the last statement, is the result. -/
theorem step_sequence_ended {v : Value} {rest : Block}
    (h : (Outcome.value v).stops = true ∨ rest = []) :
    step ⟨.give v, [.sequence rest i], s⟩ = .running ⟨.give v, [], s⟩ := by
  rw [step_sequence, if_pos]
  obtain stops | rfl := h
  · rw [show v.endsBlock = true from stops, Bool.true_or]
  · rw [List.isEmpty_nil, Bool.or_true]

theorem step_sequence_went {v : Value} {rest : Block} (goes : (Outcome.value v).stops = false)
    (filled : rest ≠ []) :
    step ⟨.give v, [.sequence rest i], s⟩ = .running ⟨.exec rest i, [], s⟩ := by
  rw [step_sequence, if_neg]
  rw [show v.endsBlock = false from goes, Bool.false_or, List.isEmpty_iff]
  exact filled

/-- A list of statements ends as its first statement does, if this stops it or is
    the last, and otherwise as the rest does. -/
theorem run_exec_cons {fuel : Nat} {st : Stmt} {rest : Block} {r : Outcome × Store}
    (h : run fuel ⟨.exec (st :: rest) i, [], s⟩ = some r) :
    ∃ n o₁ s₂, run n (execStmt st i [] s) = some (o₁, s₂) ∧ Followed rest i o₁ s₂ r := by
  obtain ⟨o, s₁⟩ := r
  obtain _ | fuel := fuel
  · cases h
  have first : run fuel ((execStmt st i [] s).above [.sequence rest i]) = some (o, s₁) := by
    rw [← execStmt_above]
    exact h
  obtain ⟨code, rfl, exits⟩ | ⟨v, s₂, ends, _ | n, -, goes⟩ := run_above first
  · exact ⟨fuel, .exit code, s₁, exits, .ended (.inl rfl)⟩
  · cases goes
  refine ⟨fuel, .value v, s₂, ends, ?_⟩
  rw [run] at goes
  by_cases last : (Outcome.value v).stops = true ∨ rest = []
  · rw [step_sequence_ended last] at goes
    obtain _ | n := n
    · cases goes
    cases goes
    exact .ended last
  · rw [not_or, Bool.not_eq_true] at last
    rw [step_sequence_went last.1 last.2] at goes
    exact .went last.1 last.2 goes

/-- The other direction of `run_exec_cons`. -/
theorem run_exec_of_cons {n : Nat} {st : Stmt} {rest : Block} {o₁ : Outcome} {s₂ : Store}
    {r : Outcome × Store} (first : run n (execStmt st i [] s) = some (o₁, s₂))
    (others : Followed rest i o₁ s₂ r) :
    ∃ total, run total ⟨.exec (st :: rest) i, [], s⟩ = some r := by
  suffices ∃ total, run total ((execStmt st i [] s).above [.sequence rest i]) = some r by
    obtain ⟨total, runs⟩ := this
    rw [← execStmt_above] at runs
    exact ⟨total + 1, runs⟩
  cases o₁ with
  | exit code =>
    cases others with
    | ended => exact ⟨n, run_exit_onto first _⟩
    | went goes => cases goes
  | value v =>
    cases others with
    | ended last =>
      have ends : run 2 ⟨.give v, [.sequence rest i], s₂⟩ = some (.value v, s₂) := by
        rw [run, step_sequence_ended last]
        rfl
      exact run_onto first ends
    | @went more _ goes filled runs =>
      have goesOn : run (more + 1) ⟨.give v, [.sequence rest i], s₂⟩ = some r := by
        rw [run, step_sequence_went goes filled]
        exact runs
      exact run_onto first goesOn

/-- Statements behind others run where these end, if these do not stop before. -/
theorem run_exec_append {b b' : Block} (filled : b ≠ []) {fuel : Nat} {o : Outcome}
    {r : Outcome × Store} (first : run fuel ⟨.exec b i, [], s⟩ = some (o, s₁))
    (others : Followed b' i o s₁ r) :
    ∃ total, run total ⟨.exec (b ++ b') i, [], s⟩ = some r := by
  induction b generalizing s fuel with
  | nil => exact absurd rfl filled
  | cons st rest ih =>
    obtain ⟨n, o₁, s₂, begins, ends⟩ := run_exec_cons first
    refine run_exec_of_cons begins ?_
    cases ends with
    | ended last =>
      obtain stops | rfl := last
      · cases others with
        | ended => exact .ended (.inl stops)
        | went goes => rw [goes] at stops; cases stops
      · exact others
    | went goes remains runs =>
      obtain ⟨total, runs⟩ := ih remains runs
      exact .went goes (List.append_ne_nil_of_left_ne_nil remains b') runs

end Machine

end Script
