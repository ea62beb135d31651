/-
  Script/Proofs/Expr/Written.lean
  ===============================
  **Which token sequences write an expression.**

  A token sequence writes an expression if it holds its nodes in order, with
  parentheses where the precedence of operators would group otherwise, and with
  as many further pairs of parentheses as one likes around any part.  Only the
  kinds of tokens matter, and the literals of names, integers and strings;
  places do not.

  Main statement: how a written expression begins (`Expr.Written.begins`).
-/
import Script.Proofs.Parse.Lookahead

namespace Script

/-! ### Where parentheses are needed -/

/-- The binary operator at the root of an expression. -/
def Expr.root? : Expr → Option BinaryOp
  | .binary _ op _ => some op
  | _ => none

/-- Whether the root of an expression is an operator, binary or unary. -/
def Expr.isOperator : Expr → Bool
  | .binary .. | .unary .. => true
  | _ => false

mutual

/-- `Written w e ts`: the tokens `ts` write the expression `e`.  The flag `w`
    tells whether at least one pair of parentheses stands around the whole. -/
inductive Expr.Written : Bool → Expr → List Token → Prop
  | atom {t e} (token : t.atom? = some e) : Expr.Written false e [t]
  | group {l r w e ts} (left : l.kind = .leftParen) (inside : Expr.Written w e ts)
      (right : r.kind = .rightParen) : Expr.Written true e (l :: (ts ++ [r]))
  | unary {t op w e ts} (sign : t.kind.unary? = some op) (operand : Expr.Written w e ts)
      (parens : e.root? ≠ none → w = true) : Expr.Written false (.unary op e) (t :: ts)
  | binary {t op w w' l r ls rs} (left : Expr.Written w l ls)
      (leftParens : ∀ op', l.root? = some op' → op'.precedence < op.precedence → w = true)
      (sign : t.kind.extension? = some (.operator op)) (right : Expr.Written w' r rs)
      (rightParens : ∀ op', r.root? = some op' → op'.precedence ≤ op.precedence → w' = true) :
      Expr.Written false (.binary l op r) (ls ++ t :: rs)
  | call {l r w f args ts us} (callee : Expr.Written w f ts)
      (parens : f.isOperator = true → w = true) (left : l.kind = .leftParen)
      (arguments : Expr.WrittenItems args us) (right : r.kind = .rightParen) :
      Expr.Written false (.call f args) (ts ++ l :: (us ++ [r]))
  | index {l r w w' c i ts us} (collection : Expr.Written w c ts)
      (parens : c.isOperator = true → w = true) (left : l.kind = .leftBracket)
      (subscript : Expr.Written w' i us) (right : r.kind = .rightBracket) :
      Expr.Written false (.index c i) (ts ++ l :: (us ++ [r]))
  | array {l r es ts} (left : l.kind = .leftBracket) (items : Expr.WrittenItems es ts)
      (right : r.kind = .rightBracket) : Expr.Written false (.array es) (l :: (ts ++ [r]))
  | table {l r ps ts} (left : l.kind = .leftBrace) (pairs : Expr.WrittenPairs ps ts)
      (right : r.kind = .rightBrace) : Expr.Written false (.table ps) (l :: (ts ++ [r]))
  | conditional {i l r w c b a cs bs as} (word : i.kind = .ifWord) (left : l.kind = .leftParen)
      (condition : Expr.Written w c cs) (right : r.kind = .rightParen)
      (consequence : Block.WrittenBraced b bs) (alternative : Block.WrittenElse a as) :
      Expr.Written false (.conditional c b a) (i :: l :: (cs ++ r :: (bs ++ as)))
  | loop {i l r w c b cs bs} (word : i.kind = .whileWord) (left : l.kind = .leftParen)
      (condition : Expr.Written w c cs) (right : r.kind = .rightParen)
      (body : Block.WrittenBraced b bs) :
      Expr.Written false (.loop c b) (i :: l :: (cs ++ r :: bs))
  | function {i ps us b bs} (word : i.kind = .functionWord) (params : ParameterList ps us)
      (body : Block.WrittenBraced b bs) : Expr.Written false (.function ps b) (i :: (us ++ bs))

/-- Expressions separated by commas. -/
inductive Expr.WrittenItems : List Expr → List Token → Prop
  | nil : Expr.WrittenItems [] []
  | cons {w e es ts us} (first : Expr.Written w e ts) (more : Expr.WrittenMoreItems es us) :
      Expr.WrittenItems (e :: es) (ts ++ us)

/-- Expressions, each behind a comma. -/
inductive Expr.WrittenMoreItems : List Expr → List Token → Prop
  | nil : Expr.WrittenMoreItems [] []
  | cons {t w e es ts us} (comma : t.kind = .comma) (next : Expr.Written w e ts)
      (more : Expr.WrittenMoreItems es us) : Expr.WrittenMoreItems (e :: es) (t :: (ts ++ us))

/-- Pairs of a key and a value, separated by commas. -/
inductive Expr.WrittenPairs : List (Expr × Expr) → List Token → Prop
  | nil : Expr.WrittenPairs [] []
  | cons {t w w' k v ps ks vs us} (key : Expr.Written w k ks) (colon : t.kind = .colon)
      (value : Expr.Written w' v vs) (more : Expr.WrittenMorePairs ps us) :
      Expr.WrittenPairs ((k, v) :: ps) (ks ++ t :: (vs ++ us))

/-- Pairs of a key and a value, each behind a comma. -/
inductive Expr.WrittenMorePairs : List (Expr × Expr) → List Token → Prop
  | nil : Expr.WrittenMorePairs [] []
  | cons {t t' w w' k v ps ks vs us} (comma : t.kind = .comma) (key : Expr.Written w k ks)
      (colon : t'.kind = .colon) (value : Expr.Written w' v vs)
      (more : Expr.WrittenMorePairs ps us) :
      Expr.WrittenMorePairs ((k, v) :: ps) (t :: (ks ++ t' :: (vs ++ us)))

/-- A statement, without a semicolon. -/
inductive Stmt.Written : Stmt → List Token → Prop
  | define {i t a w e ts} (word : i.kind = .letWord) (name : t.kind = .identifier)
      (sign : a.kind = .assign) (value : Expr.Written w e ts) :
      Stmt.Written (.define t.literal e) (i :: t :: a :: ts)
  | assign {t a w e ts} (name : t.kind = .identifier) (sign : a.kind = .assign)
      (value : Expr.Written w e ts) : Stmt.Written (.assign t.literal e) (t :: a :: ts)
  | return {i w e ts} (word : i.kind = .returnWord) (value : Expr.Written w e ts) :
      Stmt.Written (.return e) (i :: ts)
  | bare {w e ts} (expr : Expr.Written w e ts) : Stmt.Written (.bare e) ts

/-- Statements separated by semicolons. -/
inductive Block.Written : Block → List Token → Prop
  | nil : Block.Written [] []
  | cons {s ss ts us} (first : Stmt.Written s ts) (more : Block.WrittenMore ss us) :
      Block.Written (s :: ss) (ts ++ us)

/-- Statements, each behind a semicolon. -/
inductive Block.WrittenMore : Block → List Token → Prop
  | nil : Block.WrittenMore [] []
  | cons {t s ss ts us} (semicolon : t.kind = .semicolon) (next : Stmt.Written s ts)
      (more : Block.WrittenMore ss us) : Block.WrittenMore (s :: ss) (t :: (ts ++ us))

/-- A block in its braces. -/
inductive Block.WrittenBraced : Block → List Token → Prop
  | braces {l r b ts} (left : l.kind = .leftBrace) (body : Block.Written b ts)
      (right : r.kind = .rightBrace) : Block.WrittenBraced b (l :: (ts ++ [r]))

/-- The second block of a conditional, if it has one, behind its word. -/
inductive Block.WrittenElse : Option Block → List Token → Prop
  | none : Block.WrittenElse none []
  | some {i b ts} (word : i.kind = .elseWord) (block : Block.WrittenBraced b ts) :
      Block.WrittenElse (some b) (i :: ts)

end

/-! ### How expressions begin -/

theorem Expr.Written.begins {w : Bool} {e : Expr} {ts : List Token} (h : Expr.Written w e ts) :
    ∃ t us, ts = t :: us ∧ t.kind.beginsOperand = true ∧
      (t.kind = .identifier → ∀ rest, nextKind rest ≠ .assign → nextKind (us ++ rest) ≠ .assign) := by
  cases h with
  | atom token => exact ⟨_, _, rfl, Token.beginsOperand_of_atom? token, by simp⟩
  | unary sign =>
    refine ⟨_, _, rfl, TokenKind.beginsOperand_of_unary? sign, ?_⟩
    intro name
    simp [name, TokenKind.unary?] at sign
  | group first | array first | table first | conditional first | loop first | function first =>
    exact ⟨_, _, rfl, by simp [first, TokenKind.beginsOperand], by simp [first]⟩
  | @binary t op w w' l r ls rs left leftParens sign right rightParens =>
    obtain ⟨u, us, rfl, first, other⟩ := left.begins
    refine ⟨u, us ++ t :: rs, rfl, first, ?_⟩
    intro name rest _
    rw [List.append_assoc]
    exact other name _ (by intro h; simp_all [TokenKind.extension?])
  | call callee _ bracket | index callee _ bracket =>
    obtain ⟨u, us, rfl, first, other⟩ := callee.begins
    refine ⟨u, us ++ _ :: _, rfl, first, ?_⟩
    intro name rest _
    rw [List.append_assoc]
    exact other name _ (by simp [bracket])

end Script
