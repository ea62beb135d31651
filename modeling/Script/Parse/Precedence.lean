/-
  Script/Parse/Precedence.lean
  ============================
  **How tightly operators bind.**

  Eight levels, lowest to highest.  A token that can continue an expression is
  an `Extension`: a binary operator, the opening of an argument list, or the
  opening of a subscript; each has a precedence above the lowest level.
-/
import Script.Expr
import Script.Token

namespace Script

/-- The levels of binding, lowest first. -/
inductive Precedence where
  | lowest
  | equality
  | comparison
  | sum
  | product
  | unary
  | call
  | index
deriving DecidableEq, Repr, Inhabited

/-- The place of a level in the order. -/
def Precedence.rank : Precedence → Nat
  | .lowest => 0
  | .equality => 1
  | .comparison => 2
  | .sum => 3
  | .product => 4
  | .unary => 5
  | .call => 6
  | .index => 7

instance : LT Precedence := ⟨fun p q => p.rank < q.rank⟩
instance : LE Precedence := ⟨fun p q => p.rank ≤ q.rank⟩

instance (p q : Precedence) : Decidable (p < q) := inferInstanceAs (Decidable (p.rank < q.rank))
instance (p q : Precedence) : Decidable (p ≤ q) := inferInstanceAs (Decidable (p.rank ≤ q.rank))

/-- The level of a binary operator. -/
def BinaryOp.precedence : BinaryOp → Precedence
  | .equal | .notEqual => .equality
  | .less | .greater => .comparison
  | .add | .sub => .sum
  | .mul | .div => .product

/-- The ways in which a token can continue the expression on its left. -/
inductive Extension where
  | operator (op : BinaryOp)
  | arguments
  | subscript
deriving DecidableEq, Repr

def Extension.precedence : Extension → Precedence
  | .operator op => op.precedence
  | .arguments => .call
  | .subscript => .index

/-- How a kind of token continues an expression, if it can. -/
def TokenKind.extension? : TokenKind → Option Extension
  | .plus => some (.operator .add)
  | .minus => some (.operator .sub)
  | .asterisk => some (.operator .mul)
  | .slash => some (.operator .div)
  | .equal => some (.operator .equal)
  | .notEqual => some (.operator .notEqual)
  | .less => some (.operator .less)
  | .greater => some (.operator .greater)
  | .leftParen => some .arguments
  | .leftBracket => some .subscript
  | _ => none

theorem Extension.lowest_lt_precedence (x : Extension) : Precedence.lowest < x.precedence := by
  rcases x with op | _ | _
  · cases op <;> decide
  · decide
  · decide

end Script
