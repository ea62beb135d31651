/-
  Script/Proofs/Expr/Nesting.lean
  ===============================
  **How deep the bodies in a tree lie.**

  A scope is made for each call of a function and for each round of a loop, and
  lies inside the scope in which the function literal or the loop was evaluated.
  What a text has nested, a run can nest no further; so it is the bodies of
  function literals and loops that count, and no other blocks.
-/
import Script.Expr

namespace Script

mutual

/-- The greatest number of function and loop bodies in an expression that lie
    one inside the other.  A body without statements counts. -/
@[simp] def Expr.nesting : Expr → Nat
  | .identifier _ | .integer _ | .string _ | .boolean _ => 0
  | .unary _ e => e.nesting
  | .binary l _ r => max l.nesting r.nesting
  | .conditional c b a => max c.nesting (max (Block.nesting b) (Block.nestingElse a))
  -- the condition is evaluated in the scope around the loop
  | .loop c b => max c.nesting (Block.nesting b + 1)
  | .function _ b => Block.nesting b + 1
  | .call f args => max f.nesting (Expr.nestingEach args)
  | .array es => Expr.nestingEach es
  | .table ps => Expr.nestingPairs ps
  | .index c i => max c.nesting i.nesting

@[simp] def Stmt.nesting : Stmt → Nat
  | .define _ e | .assign _ e | .return e | .bare e => e.nesting
  | .block b => Block.nesting b

@[simp] def Block.nesting : List Stmt → Nat
  | [] => 0
  | s :: ss => max s.nesting (Block.nesting ss)

@[simp] def Block.nestingElse : Option (List Stmt) → Nat
  | none => 0
  | some b => Block.nesting b

@[simp] def Expr.nestingEach : List Expr → Nat
  | [] => 0
  | e :: es => max e.nesting (Expr.nestingEach es)

@[simp] def Expr.nestingPairs : List (Expr × Expr) → Nat
  | [] => 0
  | (key, value) :: ps => max key.nesting (max value.nesting (Expr.nestingPairs ps))

end

def Program.nesting (p : Program) : Nat := Block.nesting p.statements

end Script
