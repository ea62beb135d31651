/-
  Script/Proofs/Expr/Marks.lean
  =============================
  **What of a token sequence a tree keeps.**

  A tree forgets parentheses, semicolons, the comma behind the last pair of a
  table, and how an integer is written.  A mark is what is left of a token; the
  marks of a tree are those of any sequence that it can be read from.

  Main statement: sequences with the same marks agree token by token
  (`forall₂_agrees_iff`).
-/
import Mathlib.Data.List.Forall2
import Script.Proofs.Parse.Lookahead

namespace Script

/-! ### Tokens that count -/

/-- Whether a token in front of others counts, or only separates or groups. -/
def Token.counts (t : Token) (behind : List Token) : Bool :=
  match t.kind with
  | .endOfInput | .leftParen | .rightParen | .semicolon => false
  | .comma => nextKind behind != .rightBrace
  | _ => true

/-- The tokens that count: all but the end token, parentheses, semicolons, and
    commas directly before a closing brace. -/
def significant : List Token → List Token
  | [] => []
  | t :: ts => if t.counts ts then t :: significant ts else significant ts

/-- Two tokens are of one kind, and say the same where the kind leaves it open. -/
def Token.Agrees (t u : Token) : Prop :=
  t.kind = u.kind ∧ (t.kind = .identifier ∨ t.kind = .string → t.literal = u.literal) ∧
    (t.kind = .integer → decimalValue t.literal.toList = decimalValue u.literal.toList)

/-! ### Marks -/

/-- What a token says: its kind, or a text of its kind, or a number. -/
inductive Mark where
  | kind (kind : TokenKind)
  | text (kind : TokenKind) (literal : String)
  | number (value : Nat)
deriving DecidableEq, Repr

def Token.mark (t : Token) : Mark :=
  match t.kind with
  | .identifier => .text .identifier t.literal
  | .string => .text .string t.literal
  | .integer => .number (decimalValue t.literal.toList)
  | kind => .kind kind

/-- What the tokens that count say. -/
def marks (ts : List Token) : List Mark := (significant ts).map Token.mark

/-- The kind of the tokens that have a mark. -/
def Mark.tokenKind : Mark → TokenKind
  | .kind k | .text k _ => k
  | .number _ => .integer

theorem Token.tokenKind_mark (t : Token) : t.mark.tokenKind = t.kind := by
  unfold Token.mark
  split <;> simp_all [Mark.tokenKind]

theorem Token.mark_eq_iff {t u : Token} : t.mark = u.mark ↔ t.Agrees u := by
  have byKind (kind : TokenKind) (literal literal' : String) (span span' : Span) :
      (⟨kind, literal, span⟩ : Token).mark = (⟨kind, literal', span'⟩ : Token).mark ↔
        Token.Agrees ⟨kind, literal, span⟩ ⟨kind, literal', span'⟩ := by
    cases kind <;> simp [Token.mark, Token.Agrees]
  constructor
  · intro same
    have kinds : t.kind = u.kind := by
      rw [← Token.tokenKind_mark t, same, Token.tokenKind_mark]
    obtain ⟨kind, literal, span⟩ := t
    obtain ⟨kind', literal', span'⟩ := u
    cases kinds
    exact (byKind _ _ _ _ _).mp same
  · intro agrees
    obtain ⟨kind, literal, span⟩ := t
    obtain ⟨kind', literal', span'⟩ := u
    obtain rfl : kind = kind' := agrees.1
    exact (byKind _ _ _ _ _).mpr agrees

theorem forall₂_agrees_iff {ts us : List Token} :
    List.Forall₂ Token.Agrees (significant ts) (significant us) ↔ marks ts = marks us := by
  have same : Token.Agrees = fun t u => t.mark = u.mark := by
    funext t u
    exact propext Token.mark_eq_iff.symm
  rw [same, marks, marks, ← List.forall₂_eq_eq_eq, List.forall₂_map_left_iff,
    List.forall₂_map_right_iff]

/-! ### Marks of token sequences -/

@[simp] theorem marks_nil : marks [] = [] := rfl

/-- Kinds whose tokens count whatever follows them and say nothing more. -/
@[simp] def TokenKind.plain : TokenKind → Bool
  | .identifier | .string | .integer | .comma | .endOfInput | .leftParen | .rightParen
  | .semicolon => false
  | _ => true

/-- Kinds whose tokens never count. -/
@[simp] def TokenKind.silent : TokenKind → Bool
  | .endOfInput | .leftParen | .rightParen | .semicolon => true
  | _ => false

theorem marks_plain {t : Token} (h : t.kind.plain = true) (ts : List Token) :
    marks (t :: ts) = .kind t.kind :: marks ts := by
  obtain ⟨kind, literal, span⟩ := t
  cases kind <;> first | rfl | cases h

theorem marks_silent {t : Token} (h : t.kind.silent = true) (ts : List Token) :
    marks (t :: ts) = marks ts := by
  obtain ⟨kind, literal, span⟩ := t
  cases kind <;> first | rfl | cases h

theorem marks_identifier {t : Token} (h : t.kind = .identifier) (ts : List Token) :
    marks (t :: ts) = .text .identifier t.literal :: marks ts := by
  simp [marks, significant, Token.counts, Token.mark, h]

theorem marks_comma {t : Token} (h : t.kind = .comma) {ts : List Token}
    (inside : nextKind ts ≠ .rightBrace) : marks (t :: ts) = .kind .comma :: marks ts := by
  simp [marks, significant, Token.counts, Token.mark, h, inside]

theorem marks_lastComma {t : Token} (h : t.kind = .comma) {ts : List Token}
    (last : nextKind ts = .rightBrace) : marks (t :: ts) = marks ts := by
  simp [marks, significant, Token.counts, h, last]

theorem marks_dropWhile_semicolon (ts : List Token) :
    marks (ts.dropWhile (·.kind = .semicolon)) = marks ts := by
  induction ts with
  | nil => rfl
  | cons t ts ih =>
    by_cases h : t.kind = .semicolon
    · rw [List.dropWhile_cons_of_pos (by simpa using h), ih]
      exact (marks_silent (by rw [h]; rfl) ts).symm
    · rw [List.dropWhile_cons_of_neg (by simpa using h)]

/-! ### Marks of trees -/

/-- Marks between commas. -/
def separated (xs : List (List Mark)) : List Mark := [.kind .comma].intercalate xs

/-- Marks, each before a comma. -/
def terminated (xs : List (List Mark)) : List Mark := xs.flatMap (· ++ [.kind .comma])

@[simp] theorem separated_nil : separated [] = [] := rfl

@[simp] theorem terminated_nil : terminated [] = [] := rfl

@[simp] theorem terminated_append (xs : List (List Mark)) (x : List Mark) :
    terminated (xs ++ [x]) = terminated xs ++ (x ++ [.kind .comma]) := by
  simp [terminated]

@[simp] theorem separated_append (xs : List (List Mark)) (x : List Mark) :
    separated (xs ++ [x]) = terminated xs ++ x := by
  induction xs with
  | nil => simp [separated, terminated]
  | cons y ys ih =>
    have ne : ys ++ [x] ≠ [] := by simp
    rw [separated] at ih ⊢
    rw [List.cons_append, List.intercalate_cons_of_ne_nil ne, ih]
    simp [terminated]

@[simp] def braced (xs : List Mark) : List Mark := .kind .leftBrace :: (xs ++ [.kind .rightBrace])

def nameMarks (names : List String) : List (List Mark) := names.map fun x => [.text .identifier x]

mutual

/-- The marks of an expression. -/
@[simp] def Expr.marks : Expr → List Mark
  | .identifier name => [.text .identifier name]
  | .integer value => [.number value.toInt.toNat]
  | .string text => [.text .string text]
  | .boolean value => [.kind (if value then .trueWord else .falseWord)]
  | .unary op e => .kind op.kind :: e.marks
  | .binary l op r => l.marks ++ .kind op.kind :: r.marks
  | .conditional c b a =>
    .kind .ifWord :: (c.marks ++ (braced (Block.marks b) ++ Block.marksElse a))
  | .loop c b => .kind .whileWord :: (c.marks ++ braced (Block.marks b))
  | .function ps b =>
    .kind .functionWord :: (separated (nameMarks ps) ++ braced (Block.marks b))
  | .call f args => f.marks ++ separated (Expr.marksEach args)
  | .array es => .kind .leftBracket :: (separated (Expr.marksEach es) ++ [.kind .rightBracket])
  | .table ps => braced (separated (Expr.marksPairs ps))
  | .index c i => c.marks ++ .kind .leftBracket :: (i.marks ++ [.kind .rightBracket])

@[simp] def Stmt.marks : Stmt → List Mark
  | .define name e => .kind .letWord :: .text .identifier name :: .kind .assign :: e.marks
  | .assign name e => .text .identifier name :: .kind .assign :: e.marks
  | .return e => .kind .returnWord :: e.marks
  | .bare e => e.marks
  | .block b => braced (Block.marks b)

@[simp] def Block.marks : List Stmt → List Mark
  | [] => []
  | s :: ss => s.marks ++ Block.marks ss

@[simp] def Block.marksElse : Option (List Stmt) → List Mark
  | none => []
  | some b => .kind .elseWord :: braced (Block.marks b)

@[simp] def Expr.marksEach : List Expr → List (List Mark)
  | [] => []
  | e :: es => e.marks :: Expr.marksEach es

@[simp] def Expr.marksPairs : List (Expr × Expr) → List (List Mark)
  | [] => []
  | (key, value) :: ps => (key.marks ++ .kind .colon :: value.marks) :: Expr.marksPairs ps

end

@[simp] theorem Block.marks_append (b b' : Block) :
    Block.marks (b ++ b') = Block.marks b ++ Block.marks b' := by
  induction b with
  | nil => rfl
  | cons s ss ih => simp [ih]

@[simp] theorem Expr.marksEach_append (es es' : List Expr) :
    Expr.marksEach (es ++ es') = Expr.marksEach es ++ Expr.marksEach es' := by
  induction es with
  | nil => rfl
  | cons e es ih => simp [ih]

@[simp] theorem Expr.marksPairs_append (ps ps' : List (Expr × Expr)) :
    Expr.marksPairs (ps ++ ps') = Expr.marksPairs ps ++ Expr.marksPairs ps' := by
  induction ps with
  | nil => rfl
  | cons p ps ih => simp [ih]

end Script
