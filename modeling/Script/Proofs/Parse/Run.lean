/-
  Script/Proofs/Parse/Run.lean
  ============================
  **Whole runs of the parser.**

  A run that uses rules only is a chain of them (`Reads`), and carries over to
  the parser, whose last state it decides.  In the other direction, a run that
  ends without a diagnostic has used rules only.

  Main statements: `ParseState.finish_of_reads`, `ParseState.reads_of_accepted`,
  and the end that every run over a program comes to
  (`ParseState.finish_start`): the program closed, no token unread.
-/
import Mathlib.Logic.Relation
import Script.Proofs.Parse.Move

namespace Script

/-- The parser gets from one point to another by rules alone. -/
abbrev Reads : ParseControl × List Token → ParseControl × List Token → Prop :=
  Relation.ReflTransGen Rule

namespace ParseState

theorem finish_of_step? {s s' : ParseState} (h : s.step? = some s') : s.finish = s'.finish := by
  rw [finish]
  split
  · rename_i stopped
    rw [h] at stopped
    cases stopped
  · rename_i s'' step
    rw [h] at step
    cases step
    rfl

theorem finish_of_stopped {s : ParseState} (h : s.step? = none) : s.finish = s := by
  rw [finish]
  split
  · rfl
  · rename_i s' step
    rw [h] at step
    cases step

theorem finish_of_reads {p q : ParseControl × List Token} (h : Reads p q) :
    ∀ {s : ParseState}, s.point = p →
      ∃ s' : ParseState, s'.point = q ∧ s'.diagnostics = s.diagnostics ∧ s.finish = s'.finish := by
  induction h using Relation.ReflTransGen.head_induction_on with
  | refl => exact fun hs => ⟨_, hs, rfl, rfl⟩
  | head rule _ ih =>
    intro s hs
    subst hs
    obtain ⟨s', step, reached, same⟩ := step?_of_rule rule
    obtain ⟨s'', reached', same', finish⟩ := ih reached
    exact ⟨s'', reached', same'.trans same, (finish_of_step? step).trans finish⟩

/-! ### Runs without a diagnostic -/

theorem Move.keeps_diagnostics {s s' : ParseState} (h : Move s s') :
    s.diagnostics <+: s'.diagnostics := by
  cases h with
  | rule _ same | resume _ _ _ _ same => exact same ▸ List.prefix_rfl
  | fault _ _ _ recorded | unclosed _ _ _ _ recorded => exact recorded ▸ List.prefix_append _ _

theorem finish_keeps_diagnostics (s : ParseState) : s.diagnostics <+: s.finish.diagnostics := by
  fun_induction finish s with
  | case1 => exact List.prefix_rfl
  | case2 s s' h ih => exact (move_of_step? h).keeps_diagnostics.trans ih

theorem not_failed_of_rule {p : ParseControl × List Token} {k : ExprStack} {ts : List Token} :
    ¬ Rule p (.failed k, ts) := by
  intro h
  cases h with
  | operand rule | begin rule _ => cases rule

/-- A run that ends without a diagnostic has used rules only. -/
theorem reads_of_accepted (s : ParseState) (sound : ∀ k, s.control ≠ .failed k)
    (accepted : s.finish.diagnostics = []) : Reads s.point s.finish.point := by
  fun_induction finish s with
  | case1 => exact .refl
  | case2 s s' h ih =>
    have clean : s'.diagnostics = [] :=
      List.prefix_nil.mp (accepted ▸ finish_keeps_diagnostics s')
    -- diagnostics only grow, so this step records none
    cases move_of_step? h with
    | rule rule _ =>
      have sound' : ∀ k, s'.control ≠ .failed k := by
        intro k hk
        have failed : s'.point = (.failed k, s'.cursor.rest) := by rw [point, hk]
        exact not_failed_of_rule (failed ▸ rule)
      exact .head rule (ih sound' accepted)
    | fault _ _ _ recorded => simp [recorded] at clean
    | unclosed _ _ _ _ recorded => simp [recorded] at clean
    | resume control => exact absurd control (sound _)

end ParseState

/-! ### Runs over a program -/

mutual

/-- Whether a stack stands on the statements of a program. -/
@[simp] def ExprStack.inProgram : ExprStack → Bool
  | .alone => false
  | .operand _ _ k | .right _ _ _ k | .group _ k | .argument _ _ _ k | .item _ _ k
  | .subscript _ _ k | .key _ _ k | .value _ _ _ k | .ifCondition _ k | .whileCondition _ k =>
    k.inProgram
  | .statement _ _ k => k.inProgram

@[simp] def BlockStack.inProgram : BlockStack → Bool
  | .program => true
  | .consequence _ _ k | .alternative _ _ _ k | .loopBody _ _ k | .functionBody _ _ k =>
    k.inProgram

end

/-- Whether a control belongs to a run over a program. -/
@[simp] def ParseControl.inProgram : ParseControl → Bool
  | .operand _ k | .extend _ _ k | .whole _ k | .failed k => k.inProgram
  | .statements _ k | .closed _ k => k.inProgram

/-- A stack stands on a program just if the statement list around it does. -/
theorem ExprStack.inProgram_iff : ∀ {k : ExprStack}, k.inProgram = true ↔
    ∃ done outer, k.enclosing? = some (done, outer) ∧ outer.inProgram = true
  | .alone => by simp [ExprStack.enclosing?]
  | .operand _ _ k | .right _ _ _ k | .group _ k | .argument _ _ _ k | .item _ _ k
  | .subscript _ _ k | .key _ _ k | .value _ _ _ k | .ifCondition _ k | .whileCondition _ k => by
    simpa only [ExprStack.inProgram, ExprStack.enclosing?] using
      ExprStack.inProgram_iff (k := k)
  | .statement _ done k => by simp [ExprStack.enclosing?, and_assoc]

theorem ParseControl.enclosing?_of_inProgram {control : ParseControl}
    (program : control.inProgram = true) (going : ∀ b, control ≠ .closed b .program) :
    ∃ done outer, control.enclosing? = some (done, outer) ∧ outer.inProgram = true := by
  cases control with
  | operand _ k | extend _ _ k | whole _ k | failed k => exact ExprStack.inProgram_iff.mp program
  | statements done k => exact ⟨done, k, rfl, program⟩
  | closed b k =>
    cases k with
    | program => exact absurd rfl (going b)
    | _ =>
      simp only [ParseControl.inProgram, BlockStack.inProgram] at program
      exact ExprStack.inProgram_iff.mp program

/-- What holds at every point of a run over a program: the program stands at the
    bottom of the stack, and is closed only behind the last token. -/
def ParseControl.OnProgram (control : ParseControl) (ts : List Token) : Prop :=
  control.inProgram = true ∧ ∀ b, control = .closed b .program → ts = []

theorem OperandRule.onProgram {f : Precedence} {k : ExprStack} {ts : List Token}
    {p : ParseControl × List Token} (h : OperandRule f k ts p) (program : k.inProgram = true) :
    p.1.OnProgram p.2 := by
  cases h <;>
    simp [ParseControl.OnProgram, program]

theorem Rule.onProgram {p q : ParseControl × List Token} (h : Rule p q)
    (program : p.1.OnProgram p.2) : q.1.OnProgram q.2 := by
  obtain ⟨bottom, -⟩ := program
  cases h with
  | operand rule => exact rule.onProgram bottom
  | begin rule => exact rule.onProgram bottom
  | @closeBlock r done k ts block right =>
    constructor
    · exact bottom
    · intro b hb
      cases hb
      simp [BlockStack.isBlock] at block
  | _ =>
    simp_all [ParseControl.OnProgram]

namespace ParseState

theorem onProgram_of_step? {s s' : ParseState} (h : s.step? = some s')
    (program : s.control.OnProgram s.cursor.rest) : s'.control.OnProgram s'.cursor.rest := by
  cases move_of_step? h with
  | rule rule _ => exact rule.onProgram program
  | @fault k d control inside _ _ =>
    have going : ∀ b, s.control ≠ .closed b .program := by
      intro b hb
      simp [step?, hb, deliverBlock] at h
    obtain ⟨done, outer, around, bottom⟩ := ParseControl.enclosing?_of_inProgram program.1 going
    rw [control]
    constructor
    · exact ExprStack.inProgram_iff.mpr ⟨done, outer, inside.trans around, bottom⟩
    · intro b hb
      cases hb
  | @unclosed done k d control block _ after _ =>
    obtain ⟨bottom, -⟩ := program
    obtain ⟨closed, rest⟩ := Prod.mk.inj after
    rw [control] at bottom
    rw [closed]
    exact ⟨bottom, fun _ _ => rest⟩
  | @resume k done outer control inside after _ _ =>
    obtain ⟨bottom, -⟩ := program
    rw [control] at bottom
    obtain ⟨done', outer', around, bottom'⟩ := ExprStack.inProgram_iff.mp bottom
    obtain ⟨rfl, rfl⟩ := Prod.mk.inj (Option.some.inj (inside.symm.trans around))
    rcases after with after | ⟨after, block⟩
    · rw [after]
      exact ⟨bottom', by intro b hb; cases hb⟩
    · rw [after]
      constructor
      · exact bottom'
      · intro b hb
        cases hb
        cases block

/-- A run does not end inside a list of statements. -/
theorem step?_of_enclosing {s : ParseState} {list : Block × BlockStack}
    (around : s.control.enclosing? = some list) : ∃ s', s.step? = some s' := by
  obtain ⟨control, c, ds⟩ := s
  cases control with
  | operand f k | extend f e k | statements done k => exact ⟨_, rfl⟩
  | whole e k =>
    cases k with
    | alone => cases around
    | argument | item | value =>
      simp only [step?, deliver, ← apply_ite some]
      exact ⟨_, rfl⟩
    | _ => exact ⟨_, rfl⟩
  | closed b k =>
    cases k with
    | program => cases around
    | consequence =>
      simp only [step?, deliverBlock, ← apply_ite some]
      exact ⟨_, rfl⟩
    | _ => exact ⟨_, rfl⟩
  | failed k =>
    have around' : k.enclosing? = some list := around
    simp only [step?, recover, around', ← apply_ite some]
    exact ⟨_, rfl⟩

/-- Every run over a program ends with the program closed and no token unread. -/
theorem finish_in_program (s : ParseState) (program : s.control.OnProgram s.cursor.rest) :
    ∃ b, s.finish.point = (.closed b .program, []) := by
  fun_induction finish s with
  | case1 s h =>
    by_cases closed : ∃ b, s.control = .closed b .program
    · obtain ⟨b, closed⟩ := closed
      exact ⟨b, Prod.ext closed (program.2 b closed)⟩
    · obtain ⟨done, outer, around, -⟩ :=
        ParseControl.enclosing?_of_inProgram program.1 (not_exists.1 closed)
      obtain ⟨s', next⟩ := step?_of_enclosing around
      rw [h] at next
      cases next
  | case2 s s' h ih => exact ih (onProgram_of_step? h program)

/-- The state before the first statement of a program. -/
def start (s : TokenStream) : ParseState := ⟨.statements [] .program, .ofStream s, []⟩

/-- The run over a stream ends with its program closed and no token unread. -/
theorem finish_start (s : TokenStream) :
    (start s).finish.point = (.closed (Parsed.ofStream s).program.statements .program, []) := by
  have onProgram : (start s).control.OnProgram (start s).cursor.rest := by
    constructor
    · rfl
    · intro b hb
      cases hb
  obtain ⟨b, done⟩ := (start s).finish_in_program onProgram
  have closed : (start s).finish.control = .closed b .program := (Prod.mk.inj done).1
  have read : (Parsed.ofStream s).program = ⟨b⟩ := by
    show (start s).finish.program = ⟨b⟩
    rw [ParseState.program, closed]
  rw [done, read]

end ParseState

end Script
