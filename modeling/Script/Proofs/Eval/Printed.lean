/-
  Script/Proofs/Eval/Printed.lean
  ===============================
  **What was printed before.**

  No step reads the text that has been printed; a call of `print` puts its line
  behind it.  So a run that starts with some text printed is the run that starts
  with none, and that text comes first in what it leaves.

  Main statements: `Machine.step_prepend` and `Machine.run_prepend`.
-/
import Script.Proofs.Eval.Run

namespace Script

/-- A store that has printed a text before all that it has printed. -/
def Store.prepend (text : String) (s : Store) : Store := { s with output := text ++ s.output }

def Machine.prepend (text : String) (m : Machine) : Machine :=
  { m with store := m.store.prepend text }

def Progress.prepend (text : String) : Progress → Progress
  | .running m => .running (m.prepend text)
  | .halted o s => .halted o (s.prepend text)

theorem Store.print_prepend (text line : String) (s : Store) :
    (s.prepend text).print line = (s.print line).prepend text :=
  congrArg (Store.mk _ _ _) String.append_assoc

namespace Machine

/-! ### One step -/

section Step

variable (text : String) (i : ScopeId) (k : List Frame) (s : Store)

theorem continueCall_prepend (callee : Value) (done : List Value) (rest : List Expr) :
    continueCall callee done rest i k (s.prepend text) =
      (continueCall callee done rest i k s).prepend text := by
  cases rest <;> rfl

theorem continueArray_prepend (done : List Value) (rest : List Expr) :
    continueArray done rest i k (s.prepend text) =
      (continueArray done rest i k s).prepend text := by
  cases rest <;> rfl

theorem continueTable_prepend (done : Entries) (rest : List (Expr × Expr)) :
    continueTable done rest i k (s.prepend text) =
      (continueTable done rest i k s).prepend text := by
  cases rest <;> rfl

theorem evalExpr_prepend (e : Expr) :
    evalExpr e i k (s.prepend text) = (evalExpr e i k s).prepend text := by
  cases e with
  | array items => exact continueArray_prepend text i k s [] items
  | table pairs => exact continueTable_prepend text i k s .empty pairs
  | _ => rfl

theorem execBlock_prepend (b : Block) :
    execBlock b i k (s.prepend text) = (execBlock b i k s).prepend text := by
  cases b with
  | nil => rfl
  | cons st rest => cases st <;> rfl

omit i in
theorem callValue_prepend (callee : Value) (args : List Value) :
    callValue callee args k (s.prepend text) = (callValue callee args k s).prepend text := by
  cases callee with
  | function n params body scope =>
    have room : (s.prepend text).depth = s.depth := rfl
    simp only [callValue, room]
    split <;> rfl
  | builtin b =>
    simp only [callValue]
    cases b.call args with
    | printed line v =>
      simp only [Store.print_prepend]
      rfl
    | _ => rfl
  | _ => rfl

omit i in
theorem resume_prepend [Digesting] (f : Frame) (v : Value) :
    resume f v k (s.prepend text) = (resume f v k s).prepend text := by
  cases f with
  | branch b a i =>
    simp only [resume]
    split
    · rfl
    · cases a <;> rfl
  | assign name i =>
    have heap : (s.prepend text).heap = s.heap := rfl
    simp only [resume, heap]
    split <;> rfl
  | test | again | key | sequence =>
    simp only [resume]
    split <;> rfl
  | callee args i => exact continueCall_prepend text i k s v [] args
  | argument f done rest i => exact continueCall_prepend text i k s f (done ++ [v]) rest
  | item done rest i => exact continueArray_prepend text i k s (done ++ [v]) rest
  | value done place key rest i =>
    exact continueTable_prepend text i k s (done.insert place (key, v)) rest
  | _ => rfl

omit i in
theorem passError_prepend (f : Frame) (v : Value) :
    passError f v k (s.prepend text) = (passError f v k s).prepend text := by
  cases f <;> rfl

end Step

theorem step_prepend [Digesting] (text : String) (m : Machine) :
    (m.prepend text).step = m.step.prepend text := by
  obtain ⟨control, k, s⟩ := m
  cases control with
  | eval e i => exact congrArg Progress.running (evalExpr_prepend text i k s e)
  | exec b i => exact congrArg Progress.running (execBlock_prepend text i k s b)
  | call callee args => exact callValue_prepend text k s callee args
  | give v =>
    cases k with
    | nil => rfl
    | cons f k =>
      simp only [prepend, step, passError_prepend, resume_prepend]
      split <;> rfl

/-! ### Runs -/

/-- A run does the same whatever has been printed before it. -/
theorem run_prepend [Digesting] (text : String) (fuel : Nat) (m : Machine) :
    run fuel (m.prepend text) = (run fuel m).map fun (o, s) => (o, s.prepend text) := by
  induction fuel generalizing m with
  | zero => rfl
  | succ fuel ih =>
    rw [run, run, step_prepend]
    cases m.step with
    | running m' => exact ih m'
    | halted o s => rfl

end Machine

end Script
