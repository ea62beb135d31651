/-
  Script/Proofs/Parse/Lookahead.lean
  ==================================
  **What the parser sees of the tokens before it.**

  The parser decides by the kind of the next token and, where that token is an
  operand, by its literal.  This module names what it asks of tokens, and says
  what its cursor shows it of a list of them.
-/
import Script.Parse

namespace Script

/-! ### Cursors before a list of tokens -/

/-- The kind of the next token, behind the last one the kind of the end token. -/
def nextKind : List Token → TokenKind
  | [] => .endOfInput
  | t :: _ => t.kind

@[simp] theorem nextKind_nil : nextKind [] = .endOfInput := rfl

@[simp] theorem nextKind_cons (t : Token) (ts : List Token) : nextKind (t :: ts) = t.kind := rfl

theorem Cursor.peek_kind (c : Cursor) : c.peek.kind = nextKind c.rest := by
  rcases c with ⟨last, _ | ⟨t, ts⟩, stop⟩
  · rfl
  · rfl

@[simp] theorem Cursor.read_cons (last t : Token) (ts : List Token) (stop : Span) :
    (⟨last, t :: ts, stop⟩ : Cursor).read = ⟨t, ts, stop⟩ := rfl

@[simp] theorem Cursor.peek_cons (last t : Token) (ts : List Token) (stop : Span) :
    (⟨last, t :: ts, stop⟩ : Cursor).peek = t := rfl

theorem Cursor.expect_cons {kind : TokenKind} {t : Token} (h : t.kind = kind) (last : Token)
    (ts : List Token) (stop : Span) :
    (⟨last, t :: ts, stop⟩ : Cursor).expect kind = .ok ⟨t, ts, stop⟩ := by
  simp [Cursor.expect, h]

theorem Cursor.rest_of_peek {kind : TokenKind} {c : Cursor} (h : c.peek.kind = kind)
    (ne : kind ≠ .endOfInput) : c.rest = c.peek :: c.read.rest := by
  rcases c with ⟨last, _ | ⟨t, ts⟩, stop⟩
  · exact absurd h.symm ne
  · rfl

theorem Cursor.rest_of_expect {kind : TokenKind} {c c' : Cursor} (h : c.expect kind = .ok c')
    (ne : kind ≠ .endOfInput) : c'.last.kind = kind ∧ c.rest = c'.last :: c'.rest := by
  obtain ⟨rfl, hk⟩ := Cursor.expect_eq_read h
  exact ⟨hk, Cursor.rest_of_peek hk ne⟩

theorem Cursor.skipSemicolons_rest (c : Cursor) :
    c.skipSemicolons.rest = c.rest.dropWhile (·.kind = .semicolon) := by
  fun_induction Cursor.skipSemicolons c with
  | case1 c h => simp [h]
  | case2 c t ts h hk ih => simp [ih, h, hk]
  | case3 c t ts h hk => simp [h, hk]

/-! ### Reading over tokens -/

/-- Whether a token of a kind is a brace. -/
def TokenKind.isBrace : TokenKind → Bool
  | .leftBrace | .rightBrace => true
  | _ => false

/-- A cursor has read no brace since another. -/
inductive Cursor.Skips (c : Cursor) : Cursor → Prop
  | here : Skips c c
  | read {c'} (before : Skips c c') (plain : c'.peek.kind.isBrace = false) : Skips c c'.read

theorem Cursor.Skips.trans {c c' c'' : Cursor} (h : c.Skips c') (h' : c'.Skips c'') :
    c.Skips c'' := by
  induction h' with
  | here => exact h
  | read _ plain ih => exact ih.read plain

theorem Cursor.Skips.suffix {c c' : Cursor} (h : c.Skips c') : c'.rest <:+ c.rest := by
  induction h with
  | here => exact List.suffix_rfl
  | read _ _ ih => exact (List.tail_suffix _).trans ih

theorem Cursor.skips_of_expect {kind : TokenKind} {c c' : Cursor} (h : c.expect kind = .ok c')
    (plain : kind.isBrace = false) : c.Skips c' := by
  obtain ⟨rfl, found⟩ := Cursor.expect_eq_read h
  exact .read .here (found ▸ plain)

/-- What a fault has read: no brace, or just the closing brace that it is about. -/
inductive Cursor.Refuses (c : Cursor) : Cursor → Prop
  | skips {c'} (h : c.Skips c') : Refuses c c'
  | brace (next : c.peek.kind = .rightBrace) : Refuses c c.read

theorem Cursor.Refuses.suffix {c c' : Cursor} (h : c.Refuses c') : c'.rest <:+ c.rest := by
  cases h with
  | skips h => exact h.suffix
  | brace => exact List.tail_suffix _

theorem Cursor.refuses_read {c : Cursor} (other : c.peek.kind ≠ .leftBrace) : c.Refuses c.read := by
  by_cases next : c.peek.kind = .rightBrace
  · exact .brace next
  · refine .skips (.read .here ?_)
    cases kind : c.peek.kind <;> first | rfl | exact absurd kind ‹_›

/-! ### What a token can be -/

/-- The expression that one token is. -/
def Token.atom? (t : Token) : Option Expr :=
  match t.kind with
  | .identifier => some (.identifier t.literal)
  | .integer => (integerOfLiteral? t.literal).map .integer
  | .string => some (.string t.literal)
  | .trueWord => some (.boolean true)
  | .falseWord => some (.boolean false)
  | _ => none

/-- The operator that a token is in front of an operand. -/
def TokenKind.unary? : TokenKind → Option UnaryOp
  | .bang => some .not
  | .minus => some .negate
  | _ => none

/-- Whether a token of a kind can begin an operand. -/
def TokenKind.beginsOperand : TokenKind → Bool
  | .identifier | .integer | .string | .trueWord | .falseWord | .bang | .minus | .leftParen
  | .leftBracket | .leftBrace | .ifWord | .whileWord | .functionWord => true
  | _ => false

theorem Token.beginsOperand_of_atom? {t : Token} {e : Expr} (h : t.atom? = some e) :
    t.kind.beginsOperand = true := by
  unfold Token.atom? at h
  split at h <;> simp_all [TokenKind.beginsOperand]

theorem TokenKind.beginsOperand_of_unary? {kind : TokenKind} {op : UnaryOp}
    (h : kind.unary? = some op) : kind.beginsOperand = true := by
  unfold TokenKind.unary? at h
  split at h <;> simp_all [TokenKind.beginsOperand]

theorem TokenKind.extension?_eq_arguments {kind : TokenKind}
    (h : kind.extension? = some .arguments) : kind = .leftParen := by
  cases kind <;> simp_all [TokenKind.extension?]

theorem TokenKind.extension?_eq_subscript {kind : TokenKind}
    (h : kind.extension? = some .subscript) : kind = .leftBracket := by
  cases kind <;> simp_all [TokenKind.extension?]

/-! ### How operators are written -/

/-- The kind of the token that a unary operator is written with. -/
def UnaryOp.kind : UnaryOp → TokenKind
  | .not => .bang
  | .negate => .minus

@[simp] theorem UnaryOp.unary?_kind (op : UnaryOp) : op.kind.unary? = some op := by
  cases op <;> rfl

/-- The kind of the token that a binary operator is written with. -/
def BinaryOp.kind : BinaryOp → TokenKind
  | .add => .plus
  | .sub => .minus
  | .mul => .asterisk
  | .div => .slash
  | .equal => .equal
  | .notEqual => .notEqual
  | .less => .less
  | .greater => .greater

@[simp] theorem BinaryOp.extension?_kind (op : BinaryOp) : op.kind.extension? = some (.operator op) := by
  cases op <;> rfl

theorem TokenKind.eq_of_unary? {kind : TokenKind} {op : UnaryOp} (h : kind.unary? = some op) :
    kind = op.kind := by
  unfold TokenKind.unary? at h
  split at h <;> cases h <;> rfl

theorem TokenKind.eq_of_operator {kind : TokenKind} {op : BinaryOp}
    (h : kind.extension? = some (.operator op)) : kind = op.kind := by
  unfold TokenKind.extension? at h
  split at h <;> cases h <;> rfl

/-! ### Parameter lists -/

/-- Names separated by commas. -/
inductive NameList : List String → List Token → Prop
  | one {t} (name : t.kind = .identifier) : NameList [t.literal] [t]
  | more {t comma names ts} (name : t.kind = .identifier) (isComma : comma.kind = .comma)
      (rest : NameList names ts) : NameList (t.literal :: names) (t :: comma :: ts)

/-- The parameters of a function literal, in their parentheses. -/
inductive ParameterList : List String → List Token → Prop
  | empty {l r} (left : l.kind = .leftParen) (right : r.kind = .rightParen) :
      ParameterList [] [l, r]
  | names {l r ps ts} (left : l.kind = .leftParen) (names : NameList ps ts)
      (right : r.kind = .rightParen) : ParameterList ps (l :: (ts ++ [r]))

end Script
