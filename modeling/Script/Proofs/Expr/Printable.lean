/-
  Script/Proofs/Expr/Printable.lean
  =================================
  **Trees that a text can stand for.**

  Names, integers and strings of a tree are arbitrary; only some of them have
  a literal.  A tree is printable if all of its do, and if no block stands as a
  statement, for which the language has no syntax.
-/
import Script.Expr.Render
import Script.Proofs.Token.Literal

namespace Script

mutual

/-- Whether an expression has literals for all its parts. -/
@[simp] def Expr.printable : Expr → Bool
  | .identifier name => isName name
  | .integer value => decide (0 ≤ value.toInt)
  | .string text => isUnquoted text
  | .boolean _ => true
  | .unary _ e => e.printable
  | .binary l _ r => l.printable && r.printable
  | .conditional c b a => c.printable && Block.printable b && Block.printableElse a
  | .loop c b => c.printable && Block.printable b
  | .function ps b => ps.all isName && Block.printable b
  | .call f args => f.printable && Expr.printableEach args
  | .array es => Expr.printableEach es
  | .table ps => Expr.printablePairs ps
  | .index c i => c.printable && i.printable

/-- Whether a statement is none but a block, with literals for all its parts. -/
@[simp] def Stmt.printable : Stmt → Bool
  | .define name e | .assign name e => isName name && e.printable
  | .return e | .bare e => e.printable
  | .block _ => false

@[simp] def Block.printable : List Stmt → Bool
  | [] => true
  | s :: ss => s.printable && Block.printable ss

@[simp] def Block.printableElse : Option (List Stmt) → Bool
  | none => true
  | some b => Block.printable b

@[simp] def Expr.printableEach : List Expr → Bool
  | [] => true
  | e :: es => e.printable && Expr.printableEach es

@[simp] def Expr.printablePairs : List (Expr × Expr) → Bool
  | [] => true
  | (key, value) :: ps => key.printable && value.printable && Expr.printablePairs ps

end

def Program.printable (p : Program) : Bool := Block.printable p.statements

@[simp] theorem Block.printable_append (b b' : Block) :
    Block.printable (b ++ b') = (Block.printable b && Block.printable b') := by
  induction b with
  | nil => rfl
  | cons s ss ih => simp [ih, Bool.and_assoc]

@[simp] theorem Expr.printableEach_append (es es' : List Expr) :
    Expr.printableEach (es ++ es') = (Expr.printableEach es && Expr.printableEach es') := by
  induction es with
  | nil => rfl
  | cons e es ih => simp [ih, Bool.and_assoc]

@[simp] theorem Expr.printablePairs_append (ps ps' : List (Expr × Expr)) :
    Expr.printablePairs (ps ++ ps') = (Expr.printablePairs ps && Expr.printablePairs ps') := by
  induction ps with
  | nil => rfl
  | cons p ps ih => simp [ih, Bool.and_assoc]

end Script
