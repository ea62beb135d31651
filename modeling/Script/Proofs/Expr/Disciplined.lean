/-
  Script/Proofs/Expr/Disciplined.lean
  ===================================
  **Where return statements stand.**

  A return ends the blocks and loops around it and is taken off its payload
  where the call or the program ends.  That works as long as nothing between
  the return and this end uses the value: not an operator, not a binding, not
  a list of arguments.  Code is disciplined if its returns stand so: in a
  statement of the program or of a function body, or in the blocks of a
  conditional or a loop that is such a statement.
-/
import Script.Expr

namespace Script

mutual

/-- Whether the bodies of all function literals in an expression are
    disciplined, and no return stands outside of them; except, if `returns`
    says that the expression is a statement where a return may stand, in the
    blocks of a conditional or a loop that the expression is. -/
@[simp] def Expr.disciplined (returns : Bool) : Expr → Bool
  | .identifier _ | .integer _ | .string _ | .boolean _ => true
  | .unary _ e => e.disciplined false
  | .binary l _ r => l.disciplined false && r.disciplined false
  | .conditional c b a =>
    c.disciplined false && Block.disciplined returns b && Block.disciplinedElse returns a
  | .loop c b => c.disciplined false && Block.disciplined returns b
  | .function _ b => Block.disciplined true b
  | .call f args => f.disciplined false && Expr.disciplinedEach args
  | .array es => Expr.disciplinedEach es
  | .table ps => Expr.disciplinedPairs ps
  | .index c i => c.disciplined false && i.disciplined false

/-- The payload of a return is used where it stands. -/
@[simp] def Stmt.disciplined (returns : Bool) : Stmt → Bool
  | .define _ e | .assign _ e => e.disciplined false
  | .return e => returns && e.disciplined false
  | .bare e => e.disciplined returns
  | .block b => Block.disciplined returns b

/-- Whether all statements of a block are disciplined, and stand where a return
    may stand or have none. -/
@[simp] def Block.disciplined (returns : Bool) : List Stmt → Bool
  | [] => true
  | s :: ss => s.disciplined returns && Block.disciplined returns ss

@[simp] def Block.disciplinedElse (returns : Bool) : Option (List Stmt) → Bool
  | none => true
  | some b => Block.disciplined returns b

@[simp] def Expr.disciplinedEach : List Expr → Bool
  | [] => true
  | e :: es => e.disciplined false && Expr.disciplinedEach es

@[simp] def Expr.disciplinedPairs : List (Expr × Expr) → Bool
  | [] => true
  | (key, value) :: ps => key.disciplined false && value.disciplined false && Expr.disciplinedPairs ps

end

/-- A program ends by a return as a function body does. -/
def Program.disciplined (p : Program) : Bool := Block.disciplined true p.statements

end Script
