/-
  Script/Parse/Size.lean
  ======================
  **Parsing ends.**

  Each unread token counts ten, each construct on the stack three, and the
  control a little, so that reading a token pays for the two constructs it may
  begin, and finishing a construct pays for what follows it.

  Main statement: `ParseState.size_lt_of_step`.
-/
import Script.Parse.Step

namespace Script

/-- What a control counts. -/
def ParseControl.weight : ParseControl → Nat
  | .operand _ k => 3 * k.depth + 1
  | .extend _ _ k => 3 * k.depth + 2
  | .whole _ k => 3 * k.depth + 1
  | .statements _ k => 3 * k.depth + 2
  | .closed _ k => 3 * k.depth + 1
  | .failed k => 3 * k.depth

namespace ParseState

/-- What a state counts. -/
def size (s : ParseState) : Nat := 10 * s.cursor.rest.length + s.control.weight

@[simp] theorem size_goto (s : ParseState) (control : ParseControl) (c : Cursor) :
    (s.goto control c).size = 10 * c.rest.length + control.weight := rfl

@[simp] theorem size_fail (s : ParseState) (k : ExprStack) (c : Cursor) (d : Diagnostic) :
    (s.fail k c d).size = 10 * c.rest.length + 3 * k.depth := rfl

theorem size_require_lt {s : ParseState} {kind : TokenKind} {k : ExprStack} {c : Cursor}
    {next : Cursor → ParseState} {n : Nat} (ne : kind ≠ .endOfInput)
    (refused : 10 * c.rest.length + 3 * k.depth < n)
    (found : ∀ c' : Cursor, c'.rest.length < c.rest.length → (next c').size < n) :
    (s.require kind k c next).size < n := by
  unfold require
  split
  · rename_i c' h
    exact found c' (Cursor.expect_length_lt h ne)
  · simpa using refused

end ParseState

/-! ### Parameters -/

/-- Where a reading of parameters ends, whether it succeeds or not. -/
def parametersEnd : Except (Diagnostic × Cursor) (List String × Cursor) → Cursor
  | .error (_, c) => c
  | .ok (_, c) => c

theorem parameters_length_le (names : List String) (c : Cursor) :
    (parametersEnd (parameters names c)).rest.length ≤ c.rest.length := by
  fun_induction parameters names c with
  | case1 => exact Nat.le_refl _
  | case2 names c c' h names' hk ih =>
    have := Cursor.expect_length_lt h (by decide)
    have := c'.read_length_le
    omega
  | case3 names c c' h names' hk d =>
    exact Nat.le_of_lt (Cursor.expect_length_lt h (by decide))
  | case4 names c c' h names' hk c'' h' =>
    have := Cursor.expect_length_lt h (by decide)
    have := Cursor.expect_length_lt h' (by decide)
    simp only [parametersEnd]
    omega

theorem parameterList_length_le (c : Cursor) :
    (parametersEnd (parameterList c)).rest.length ≤ c.rest.length := by
  unfold parameterList
  split
  · exact Nat.le_refl _
  · rename_i c' h
    have lt := Cursor.expect_length_lt h (by decide)
    split
    · have := c'.read_length_le
      simp only [parametersEnd]
      omega
    · exact Nat.le_trans (parameters_length_le [] c') (Nat.le_of_lt lt)

namespace ParseState

/-! ### Steps -/

/-- Reading an operand pays for everything the operand may begin, and at the
    end of the text it only fails. -/
theorem size_readOperand_lt (s : ParseState) (floor : Precedence) (k : ExprStack) {n : Nat}
    (empty : s.cursor.rest = [] → 3 * k.depth < n)
    (unread : s.cursor.rest ≠ [] → 10 * s.cursor.rest.length + 3 * k.depth < n + 5) :
    (s.readOperand floor k).size < n := by
  by_cases hr : s.cursor.rest = []
  · have hk : s.cursor.peek.kind = .endOfInput := by simp [Cursor.peek, hr, Token.endOfInput]
    have := empty hr
    simp [readOperand, hk, hr]
    omega
  · have bound := unread hr
    have pos : 0 < s.cursor.rest.length := List.length_pos_iff.mpr hr
    have read : s.cursor.read.rest.length + 1 = s.cursor.rest.length := by
      simp; omega
    unfold readOperand
    generalize s.cursor.read = c at read
    have again := c.read_length_le
    dsimp only
    split
    case h_1 | h_3 | h_4 | h_5 | h_6 | h_7 | h_8 | h_14 =>
      simp only [size_goto, size_fail, ParseControl.weight, ExprStack.depth]
      omega
    case h_2 | h_9 | h_10 =>
      split <;> simp only [size_goto, size_fail, ParseControl.weight, ExprStack.depth] <;> omega
    case h_11 | h_12 =>
      refine size_require_lt (by decide) (by omega) fun c' lt => ?_
      simp only [size_goto, ParseControl.weight, ExprStack.depth]
      omega
    case h_13 =>
      have params := parameterList_length_le c
      split <;> rename_i heq <;> rw [heq] at params <;> simp only [parametersEnd] at params
      · simp only [size_fail]
        omega
      · refine size_require_lt (by decide) (by omega) fun c' lt => ?_
        simp only [size_goto, ParseControl.weight, BlockStack.depth]
        omega

theorem size_extendBy_lt (s : ParseState) (floor : Precedence) (left : Expr) (k : ExprStack) :
    (s.extendBy floor left k).size < 10 * s.cursor.rest.length + 3 * k.depth + 2 := by
  unfold extendBy
  split
  · simp only [size_goto, ParseControl.weight]
    omega
  · rename_i x hx
    have lt : s.cursor.read.rest.length < s.cursor.rest.length :=
      Cursor.read_length_lt fun h => by simp [h, TokenKind.extension?] at hx
    have again := s.cursor.read.read_length_le
    split
    · dsimp only
      split
      case h_3 =>
        split <;> simp only [size_goto, ParseControl.weight, ExprStack.depth] <;> omega
      all_goals
        simp only [size_goto, ParseControl.weight, ExprStack.depth]
        omega
    · simp only [size_goto, ParseControl.weight]
      omega

theorem size_deliver_lt (s s' : ParseState) (e : Expr) (k : ExprStack)
    (h : s.deliver e k = some s') : s'.size < 10 * s.cursor.rest.length + 3 * k.depth + 1 := by
  have read := s.cursor.read_length_le
  cases k <;> simp only [deliver, Option.some.injEq, reduceCtorEq] at h
  case operand => subst h; simp only [size_goto, ParseControl.weight, ExprStack.depth]; omega
  case right => subst h; simp only [size_goto, ParseControl.weight, ExprStack.depth]; omega
  case group | subscript =>
    subst h
    refine size_require_lt (by decide) (by simp only [ExprStack.depth]; omega) fun c lt => ?_
    simp only [size_goto, ParseControl.weight, ExprStack.depth]
    omega
  case argument | item =>
    split at h <;> rename_i hk <;> cases h
    · have lt := Cursor.read_length_lt (c := s.cursor) (by rw [hk]; decide)
      simp only [size_goto, ParseControl.weight, ExprStack.depth]
      omega
    · refine size_require_lt (by decide) (by simp only [ExprStack.depth]; omega) fun c lt => ?_
      simp only [size_goto, ParseControl.weight, ExprStack.depth]
      omega
  case key =>
    subst h
    refine size_require_lt (by decide) (by simp only [ExprStack.depth]; omega) fun c lt => ?_
    simp only [size_goto, ParseControl.weight, ExprStack.depth]
    omega
  case value =>
    split at h <;> rename_i hk <;> cases h
    · simp only [size_goto, ParseControl.weight, ExprStack.depth]
      omega
    · refine size_require_lt (by decide) (by simp only [ExprStack.depth]; omega) fun c lt => ?_
      have again := c.read_length_le
      split <;> simp only [size_goto, ParseControl.weight, ExprStack.depth] <;> omega
  case ifCondition | whileCondition =>
    subst h
    refine size_require_lt (by decide) (by simp only [ExprStack.depth]; omega) fun c lt => ?_
    refine size_require_lt (by decide) (by simp only [ExprStack.depth]; omega) fun c' lt' => ?_
    simp only [size_goto, ParseControl.weight, ExprStack.depth, BlockStack.depth]
    omega
  case statement head done outer =>
    subst h
    have skip := s.cursor.skipSemicolons_length_le
    simp only [size_goto, ParseControl.weight, ExprStack.depth]
    split
    · split <;> omega
    · omega

theorem size_beginStatement_lt (s : ParseState) (done : Block) (k : BlockStack)
    (unread : s.cursor.rest ≠ []) :
    (s.beginStatement done k).size < 10 * s.cursor.rest.length + 3 * k.depth + 2 := by
  have pos : 0 < s.cursor.rest.length := List.length_pos_iff.mpr unread
  have read : s.cursor.read.rest.length + 1 = s.cursor.rest.length := by
    simp; omega
  have again := s.cursor.read.read_length_le
  have operand (floor : Precedence) (head : StmtHead) :
      (s.readOperand floor (.statement head done k)).size
        < 10 * s.cursor.rest.length + 3 * k.depth + 2 :=
    size_readOperand_lt s floor _ (fun h => absurd h unread) fun _ => by
      simp only [ExprStack.depth]; omega
  unfold beginStatement
  dsimp only
  split
  case h_1 =>
    refine size_require_lt (by decide) (by simp only [ExprStack.depth]; omega) fun c lt => ?_
    refine size_require_lt (by decide) (by simp only [ExprStack.depth]; omega) fun c' lt' => ?_
    simp only [size_goto, ParseControl.weight, ExprStack.depth]
    omega
  case h_2 =>
    simp only [size_goto, ParseControl.weight, ExprStack.depth]
    omega
  case h_3 =>
    split
    · simp only [size_goto, ParseControl.weight, ExprStack.depth]
      omega
    · exact operand _ _
  case h_4 => exact operand _ _

theorem size_nextStatement_lt (s : ParseState) (done : Block) (k : BlockStack) :
    (s.nextStatement done k).size < 10 * s.cursor.rest.length + 3 * k.depth + 2 := by
  have read := s.cursor.read_length_le
  unfold nextStatement
  split
  · rename_i hr
    split
    · simp only [size, ParseControl.weight]
      omega
    · simp only [size_goto, ParseControl.weight]
      omega
  · rename_i t ts hr
    split
    · simp only [size_goto, ParseControl.weight]
      omega
    · exact size_beginStatement_lt s done k (by simp [hr])

theorem size_deliverBlock_lt (s s' : ParseState) (block : Block) (k : BlockStack)
    (h : s.deliverBlock block k = some s') :
    s'.size < 10 * s.cursor.rest.length + 3 * k.depth + 1 := by
  cases k <;> simp only [deliverBlock, Option.some.injEq, reduceCtorEq] at h
  case consequence =>
    split at h <;> rename_i hk <;> cases h
    · have lt := Cursor.read_length_lt (c := s.cursor) (by rw [hk]; decide)
      refine size_require_lt (by decide) (by simp only [BlockStack.depth]; omega) fun c lt' => ?_
      simp only [size_goto, ParseControl.weight, BlockStack.depth]
      omega
    · simp only [size_goto, ParseControl.weight, BlockStack.depth]
      omega
  all_goals
    subst h
    simp only [size_goto, ParseControl.weight, BlockStack.depth]
    omega

theorem size_recover_lt (s s' : ParseState) (k : ExprStack) (h : s.recover k = some s') :
    s'.size < 10 * s.cursor.rest.length + 3 * k.depth := by
  have resume := s.cursor.resume_length_le
  unfold recover at h
  split at h
  · cases h
  · rename_i done outer he
    have depth := ExprStack.enclosing?_depth_lt he
    dsimp only at h
    split at h <;> cases h <;> simp only [size_goto, ParseControl.weight] <;> omega

/-- Every step makes the state smaller. -/
theorem size_lt_of_step {s s' : ParseState} (h : s.step? = some s') : s'.size < s.size := by
  rcases s with ⟨control, cursor, diagnostics⟩
  cases control <;> simp only [step?, Option.some.injEq] at h
  case operand floor k =>
    subst h
    refine size_readOperand_lt _ floor k (fun hr => ?_) (fun _ => ?_) <;>
      simp only [size, ParseControl.weight] <;> omega
  case extend floor left k => subst h; exact size_extendBy_lt _ floor left k
  case whole e k => exact size_deliver_lt _ _ e k h
  case statements done k => subst h; exact size_nextStatement_lt _ done k
  case closed block k => exact size_deliverBlock_lt _ _ block k h
  case failed k => exact size_recover_lt _ _ k h

end ParseState

end Script
