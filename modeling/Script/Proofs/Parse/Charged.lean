/-
  Script/Proofs/Parse/Charged.lean
  ================================
  **Every fault costs a token.**

  Parsing takes a number of steps that is linear in the tokens, and ends where
  only the end token is left.  On the way it reads a token for each statement it
  begins and for each block it opens.  The first token of a statement pays for
  the fault that drops it, or for its place in the program; the opening brace of
  a block pays for the fault of a block that nothing closes.  So faults do not
  cascade.

  Main statements: a step spends no more than it has
  (`ParseState.spent_of_step?`), and what every text comes to
  (`Parsed.finished_ofString`).
-/
import Script.Proofs.Parse.Located

namespace Script

/-! ### What is still to be paid -/

mutual

/-- What a stack may still cost: the statements that the program has so far, one
    for each statement that has begun and one for each block that is open. -/
@[simp] def ExprStack.due : ExprStack → Nat
  | .alone => 1
  | .operand _ _ k | .right _ _ _ k | .group _ k | .argument _ _ _ k | .item _ _ k
  | .subscript _ _ k | .key _ _ k | .value _ _ _ k | .ifCondition _ k | .whileCondition _ k => k.due
  | .statement _ done k => k.due done + 1

/-- What a stack may still cost behind the statements `done`. -/
@[simp] def BlockStack.due (done : Block) : BlockStack → Nat
  | .program => done.length
  | .consequence _ _ k | .alternative _ _ _ k | .loopBody _ _ k | .functionBody _ _ k => k.due + 1

end

/-- What the statement list around a place may still cost, if there is one. -/
def dueAround : Option (Block × BlockStack) → Nat
  | none => 0
  | some (done, k) => k.due done

/-- What a control may still cost.  A fault is paid for when it is found, and the
    brace of a block when the block is closed. -/
@[simp] def ParseControl.due : ParseControl → Nat
  | .operand _ k | .extend _ _ k | .whole _ k => k.due
  | .statements done k => k.due done
  | .closed b .program => b.length
  | .closed _ (.consequence _ _ k) | .closed _ (.alternative _ _ _ k) | .closed _ (.loopBody _ _ k)
  | .closed _ (.functionBody _ _ k) => k.due
  | .failed k => dueAround k.enclosing?

/-- A construct in a statement costs one more than the list around the statement. -/
theorem ExprStack.due_eq : ∀ k : ExprStack, k.due = dueAround k.enclosing? + 1
  | .alone => rfl
  | .operand _ _ k | .right _ _ _ k | .group _ k | .argument _ _ _ k | .item _ _ k
  | .subscript _ _ k | .key _ _ k | .value _ _ _ k | .ifCondition _ k | .whileCondition _ k =>
    ExprStack.due_eq k
  | .statement _ _ _ => rfl

theorem BlockStack.due_append_le (done : Block) (st : Stmt) (k : BlockStack) :
    k.due (done ++ [st]) ≤ k.due done + 1 := by
  cases k <;> simp

theorem ParseControl.due_closed_lt {b : Block} {k : BlockStack} (block : k.isBlock = true) :
    (ParseControl.closed b k).due < k.due b := by
  cases k with
  | program => cases block
  | _ => exact Nat.lt_succ_self _

/-! ### Rules -/

theorem OperandRule.due_lt {f : Precedence} {k : ExprStack} {ts : List Token}
    {p : ParseControl × List Token} (h : OperandRule f k ts p) :
    p.1.due + p.2.length < k.due + ts.length := by
  cases h with
  | function => simp; omega
  | _ => simp

/-- A rule reads a token for each statement that it begins and for each block
    that it opens. -/
theorem Rule.due_le {p q : ParseControl × List Token} (h : Rule p q) :
    q.1.due + q.2.length ≤ p.1.due + p.2.length := by
  cases h with
  | operand rule => exact Nat.le_of_lt rule.due_lt
  | @begin t done k ts p rule other =>
    have paid := rule.due_lt
    simp only [ExprStack.due, ParseControl.due] at paid ⊢
    omega
  | @closeBlock r done k ts block right =>
    have paid := ParseControl.due_closed_lt (b := done) block
    simp only [ParseControl.due, List.length_cons] at paid ⊢
    omega
  | @bare e done k ts last =>
    have kept := BlockStack.due_append_le done (.bare e) k
    simp only [ParseControl.due, ExprStack.due]
    omega
  | @bareSemicolon t e done k ts semicolon =>
    have kept := BlockStack.due_append_le done (.bare e) k
    simp only [ParseControl.due, ExprStack.due, List.length_cons]
    omega
  | @headed head e done k ts headed =>
    have kept := BlockStack.due_append_le done (head.complete e) k
    have fewer := (List.dropWhile_sublist (l := ts) (·.kind = .semicolon)).length_le
    simp only [ParseControl.due, ExprStack.due]
    omega
  | _ => simp <;> omega

/-! ### Steps -/

namespace ParseState

variable {s s' : ParseState}

/-- The faults that are recorded, and what the run may still cost. -/
def spent (s : ParseState) : Nat :=
  s.diagnostics.length + (s.control.due + s.cursor.rest.length)

theorem recover_diagnostics {k : ExprStack} (h : s.recover k = some s') :
    s'.diagnostics = s.diagnostics := by
  unfold recover at h
  split at h
  · cases h
  · simp only [← apply_ite some, Option.some.injEq] at h
    subst h
    split <;> rfl

/-- A fault drops a statement that has begun; where the statement begins with the
    fault, the step reads its first token. -/
theorem due_of_fault {k : ExprStack} (h : s.step? = some s') (control : s'.control = .failed k)
    (inside : k.enclosing? = s.control.enclosing?) (behind : s'.cursor.rest <:+ s.cursor.rest)
    (recorded : s'.diagnostics ≠ s.diagnostics) :
    s'.control.due + s'.cursor.rest.length < s.control.due + s.cursor.rest.length := by
  have fewer := behind.length_le
  have smaller := size_lt_of_step h
  obtain ⟨current, c, ds⟩ := s
  rw [control, ParseControl.due, inside]
  cases current with
  -- the statement that is dropped had paid for its place
  | operand f k' | extend f e k' | whole e k' =>
    rw [ParseControl.enclosing?, ParseControl.due, k'.due_eq]
    omega
  -- the statement is begun and dropped in one step, which reads a token
  | statements done outer =>
    have depth := ExprStack.enclosing?_depth_lt inside
    simp only [size, control, ParseControl.weight] at smaller
    simp only [ParseControl.enclosing?, dueAround, ParseControl.due]
    omega
  | closed b outer =>
    cases outer with
    | program => cases h
    | consequence c f k' | alternative c b' f k' | loopBody c f k' | functionBody ps f k' =>
      rw [ParseControl.enclosing?, BlockStack.enclosing?, ParseControl.due, k'.due_eq]
      omega
  | failed k' => exact absurd (recover_diagnostics h) recorded

/-- A step spends no more than it has. -/
theorem spent_of_step? (h : s.step? = some s') : s'.spent ≤ s.spent := by
  unfold spent
  cases move_of_step? h with
  | rule rule same =>
    have paid := rule.due_le
    simp only [point] at paid
    rw [same]
    omega
  | fault control inside read recorded =>
    have paid := due_of_fault h control inside read.suffix (by simp [recorded])
    rw [recorded, List.length_append, List.length_singleton]
    omega
  -- the opening brace of the block had paid for this fault
  | @unclosed done k d control block before after recorded =>
    obtain ⟨closed, rest⟩ := Prod.mk.inj after
    have paid := ParseControl.due_closed_lt (b := done) block
    rw [recorded, closed, rest, control, List.length_append, List.length_singleton]
    simp only [ParseControl.due, List.length_nil] at paid ⊢
    omega
  | @resume k done outer control inside after behind same =>
    have fewer := behind.length_le
    have kept : s'.control.due ≤ s.control.due := by
      rw [control, ParseControl.due, inside, dueAround]
      rcases after with after | ⟨after, block⟩
      · rw [after, ParseControl.due]
      · rw [after]
        exact Nat.le_of_lt (ParseControl.due_closed_lt block)
    rw [same]
    omega

theorem finish_spent (s : ParseState) : s.finish.spent ≤ s.spent := by
  fun_induction finish s with
  | case1 => exact Nat.le_refl _
  | case2 s s' h ih => exact Nat.le_trans ih (spent_of_step? h)

/-! ### Numbers of steps -/

/-- The state behind so many steps, if there are so many. -/
def after : Nat → ParseState → Option ParseState
  | 0, s => some s
  | n + 1, s => s.step?.bind (after n)

theorem finish_step? (s : ParseState) : s.finish.step? = none := by
  fun_induction finish s with
  | case1 s h => exact h
  | case2 s s' h ih => exact ih

/-- The last state is reached, in no more steps than the first state counts. -/
theorem after_finish (s : ParseState) : ∃ n ≤ s.size, after n s = some s.finish := by
  fun_induction finish s with
  | case1 s h => exact ⟨0, Nat.zero_le _, rfl⟩
  | case2 s s' h ih =>
    obtain ⟨n, few, reached⟩ := ih
    have smaller := size_lt_of_step h
    exact ⟨n + 1, by omega, by simp [after, h, reached]⟩

end ParseState

/-! ### Texts -/

/-- Every text is parsed in a number of steps that is linear in its tokens: the
    parser stops with the whole program read, before the end token; and there are
    no more statements in the program and diagnostics together than tokens. -/
theorem Parsed.finished_ofString (source : String) :
    ∃ n final, n ≤ 10 * (TokenStream.ofString source).tokens.length + 2 ∧
      (ParseState.start (.ofString source)).after n = some final ∧ final.step? = none ∧
      final.control = .closed (Parsed.ofString source).program.statements .program ∧
      final.diagnostics = (Parsed.ofString source).diagnostics ∧ final.cursor.rest = [] ∧
      final.cursor.peek = .endOfInput (TokenStream.ofString source).stop ∧
      (Parsed.ofString source).program.statements.length +
        (Parsed.ofString source).diagnostics.length ≤ (TokenStream.ofString source).tokens.length := by
  let stream := TokenStream.ofString source
  let s := ParseState.start stream
  obtain ⟨n, few, reached⟩ := s.after_finish
  obtain ⟨closed, ended⟩ := Prod.mk.inj (ParseState.finish_start stream)
  have peek : s.finish.cursor.peek = .endOfInput s.finish.cursor.stop := by
    rw [Cursor.peek, ended, List.headD_nil]
  refine ⟨n, s.finish, few, reached, s.finish_step?, closed, rfl, ended, ?_, ?_⟩
  · have located := ParseState.located_finish source
    -- what is left of the stream is its last token
    have behind : [s.finish.cursor.peek] <:+ stream.tokens ++ [.endOfInput stream.stop] := by
      have behind := located.behind
      rwa [Cursor.ahead, ended, List.nil_append, ← peek] at behind
    have last := behind.getLast (by simp)
    simpa using last
  · have paid := s.finish_spent
    have first : s.spent = (TokenStream.ofString source).tokens.length := by
      simp [s, stream, ParseState.spent, ParseState.start, Cursor.ofStream]
    have last : s.finish.spent = (Parsed.ofString source).diagnostics.length +
        (Parsed.ofString source).program.statements.length := by
      rw [ParseState.spent, closed, ended]
      rfl
    omega

end Script
