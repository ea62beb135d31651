/-
  Script/Proofs/Eval/Above.lean
  =============================
  **Runs above other frames.**

  A step looks at the innermost frame only.  So a machine that has more frames
  below its stack first runs as it does without them, and when that run ends
  with a value, hands it to the frames below.

  Main statements: `Machine.step_above` and `Machine.run_above`.
-/
import Script.Proofs.Eval.Run

namespace Script

namespace Machine

/-- A machine with more frames below its stack. -/
def above (m : Machine) (k : List Frame) : Machine := { m with stack := m.stack ++ k }

end Machine

def Progress.above (k : List Frame) : Progress → Progress
  | .running m => .running (m.above k)
  | .halted o s => .halted o s

namespace Machine

/-! ### One step -/

section Step

variable (i : ScopeId) (stack k : List Frame) (s : Store)

theorem continueCall_above (callee : Value) (done : List Value) (rest : List Expr) :
    continueCall callee done rest i (stack ++ k) s =
      (continueCall callee done rest i stack s).above k := by
  cases rest <;> rfl

theorem continueArray_above (done : List Value) (rest : List Expr) :
    continueArray done rest i (stack ++ k) s = (continueArray done rest i stack s).above k := by
  cases rest <;> rfl

theorem continueTable_above (done : Entries) (rest : List (Expr × Expr)) :
    continueTable done rest i (stack ++ k) s = (continueTable done rest i stack s).above k := by
  cases rest <;> rfl

theorem evalExpr_above (e : Expr) :
    evalExpr e i (stack ++ k) s = (evalExpr e i stack s).above k := by
  cases e with
  | array items => exact continueArray_above i stack k s [] items
  | table pairs => exact continueTable_above i stack k s .empty pairs
  | _ => rfl

theorem execStmt_above (st : Stmt) :
    execStmt st i (stack ++ k) s = (execStmt st i stack s).above k := by
  cases st <;> rfl

theorem execBlock_above (b : Block) :
    execBlock b i (stack ++ k) s = (execBlock b i stack s).above k := by
  cases b with
  | nil => rfl
  | cons st rest => exact execStmt_above i (.sequence rest i :: stack) k s st

omit i in
theorem resume_above [Digesting] (f : Frame) (v : Value) :
    resume f v (stack ++ k) s = (resume f v stack s).above k := by
  cases f with
  | branch b a i =>
    simp only [resume]
    split
    · rfl
    · cases a <;> rfl
  | test | again | sequence =>
    simp only [resume]
    split <;> rfl
  | key done e rest i =>
    simp only [resume]
    split <;> rfl
  | assign name i =>
    simp only [resume]
    split <;> rfl
  | callee args i => exact continueCall_above i stack k s v [] args
  | argument f done rest i => exact continueCall_above i stack k s f (done ++ [v]) rest
  | item done rest i => exact continueArray_above i stack k s (done ++ [v]) rest
  | value done place key rest i =>
    exact continueTable_above i stack k s (done.insert place (key, v)) rest
  | _ => rfl

omit i in
theorem passError_above (f : Frame) (v : Value) :
    passError f v (stack ++ k) s = (passError f v stack s).above k := by
  cases f <;> rfl

omit i in
theorem callValue_above (callee : Value) (args : List Value) :
    callValue callee args (stack ++ k) s = (callValue callee args stack s).above k := by
  cases callee with
  | function n params body i =>
    simp only [callValue]
    split <;> rfl
  | builtin b =>
    simp only [callValue]
    cases b.call args <;> rfl
  | _ => rfl

end Step

variable [Digesting]

/-- Unless its stack is empty and it has a value to hand to it, a machine takes
    the same step above other frames. -/
theorem step_above {m : Machine} (busy : ∀ v, m.control = .give v → m.stack ≠ [])
    (k : List Frame) : (m.above k).step = m.step.above k := by
  obtain ⟨control, stack, s⟩ := m
  cases control with
  | eval e i => exact congrArg Progress.running (evalExpr_above i stack k s e)
  | exec b i => exact congrArg Progress.running (execBlock_above i stack k s b)
  | call callee args => exact callValue_above stack k s callee args
  | give v =>
    cases stack with
    | nil => exact absurd rfl (busy v rfl)
    | cons f stack =>
      simp only [above, List.cons_append, step, passError_above, resume_above]
      split <;> rfl

/-! ### Runs -/

theorem running_above {m m' : Machine} (h : m.step = .running m') (k : List Frame) :
    (m.above k).step = .running (m'.above k) := by
  rw [step_above _ k, h]
  · rfl
  · obtain ⟨control, stack, s⟩ := m
    rintro v rfl rfl
    cases h

/-- What ends a run ends it above other frames too, unless it is a value, which
    these frames get. -/
theorem halted_above {m : Machine} {o : Outcome} {s : Store} (h : m.step = .halted o s)
    (k : List Frame) :
    (∃ code, o = .exit code ∧ (m.above k).step = .halted o s) ∨
      ∃ v, o = .value v ∧ m.above k = ⟨.give v, k, s⟩ := by
  obtain ⟨control, stack, store⟩ := m
  obtain ⟨rfl, ⟨code, rfl⟩ | ⟨v, rfl, given, done⟩⟩ := halted_cases h
  · refine .inl ⟨code, rfl, ?_⟩
    rw [step_above _ k, h]
    · rfl
    · rintro v rfl rfl
      cases h
  · cases given
    cases done
    exact .inr ⟨v, rfl, rfl⟩

/-- A run above other frames is the run without them, and from there on, if it
    ended with a value, a run that hands them that value. -/
theorem run_above {m : Machine} {k : List Frame} {fuel : Nat} {o : Outcome} {s : Store}
    (h : run fuel (m.above k) = some (o, s)) :
    (∃ code, o = .exit code ∧ run fuel m = some (o, s)) ∨
      ∃ v s₁, run fuel m = some (.value v, s₁) ∧
        ∃ rest ≤ fuel, run rest ⟨.give v, k, s₁⟩ = some (o, s) := by
  induction fuel generalizing m with
  | zero => cases h
  | succ fuel ih =>
    cases next : m.step with
    | running m' =>
      have runs : run (fuel + 1) m = run fuel m' := by rw [run, next]
      rw [run, running_above next k] at h
      rw [runs]
      obtain exits | ⟨v, s₁, ends, rest, less, goes⟩ := ih h
      · exact .inl exits
      · exact .inr ⟨v, s₁, ends, rest, Nat.le_succ_of_le less, goes⟩
    | halted o' s' =>
      have ends : run (fuel + 1) m = some (o', s') := by rw [run, next]
      obtain ⟨code, rfl, halts⟩ | ⟨v, rfl, given⟩ := halted_above next k
      · rw [run, halts] at h
        cases h
        exact .inl ⟨code, rfl, ends⟩
      · rw [given] at h
        exact .inr ⟨v, s', ends, fuel + 1, Nat.le_refl _, h⟩

end Machine

end Script
