/-
  Script/Parse/Stack.lean
  =======================
  **What the parser has begun and not finished.**

  A stack lists the constructs around the place where the parser stands,
  innermost first.  An `ExprStack` waits for an expression; each of its
  constructs inside a larger expression keeps the floor, the precedence above
  which an operator may still extend the construct once it is whole.  A
  `BlockStack` waits for the statements of a block or of the whole program.
-/
import Script.Parse.Precedence

namespace Script

/-- The beginning of a statement whose expression is still to come. -/
inductive StmtHead where
  | define (name : String)
  | assign (name : String)
  | return
  | bare
deriving DecidableEq, Repr

def StmtHead.complete : StmtHead → Expr → Stmt
  | .define name, e => .define name e
  | .assign name, e => .assign name e
  | .return, e => .return e
  | .bare, e => .bare e

mutual

/-- Constructs that wait for an expression. -/
inductive ExprStack where
  /-- Nothing: the expression is wanted for itself. -/
  | alone
  | operand (op : UnaryOp) (floor : Precedence) (outer : ExprStack)
  | right (left : Expr) (op : BinaryOp) (floor : Precedence) (outer : ExprStack)
  | group (floor : Precedence) (outer : ExprStack)
  /-- An argument of a call, behind those already read. -/
  | argument (callee : Expr) (done : List Expr) (floor : Precedence) (outer : ExprStack)
  /-- An item of an array literal, behind those already read. -/
  | item (done : List Expr) (floor : Precedence) (outer : ExprStack)
  | subscript (collection : Expr) (floor : Precedence) (outer : ExprStack)
  /-- A key of a table literal, behind the pairs already read. -/
  | key (done : List (Expr × Expr)) (floor : Precedence) (outer : ExprStack)
  | value (done : List (Expr × Expr)) (key : Expr) (floor : Precedence) (outer : ExprStack)
  | ifCondition (floor : Precedence) (outer : ExprStack)
  | whileCondition (floor : Precedence) (outer : ExprStack)
  /-- The expression of a statement, behind the statements already read. -/
  | statement (head : StmtHead) (done : Block) (outer : BlockStack)

/-- Constructs that wait for a list of statements. -/
inductive BlockStack where
  | program
  | consequence (condition : Expr) (floor : Precedence) (outer : ExprStack)
  | alternative (condition : Expr) (consequence : Block) (floor : Precedence) (outer : ExprStack)
  | loopBody (condition : Expr) (floor : Precedence) (outer : ExprStack)
  | functionBody (params : List String) (floor : Precedence) (outer : ExprStack)

end

/-- The innermost statement list around a stack: the statements it has so far,
    and what waits for it. -/
def ExprStack.enclosing? : ExprStack → Option (Block × BlockStack)
  | .alone => none
  | .operand _ _ k | .right _ _ _ k | .group _ k | .argument _ _ _ k | .item _ _ k
  | .subscript _ _ k | .key _ _ k | .value _ _ _ k | .ifCondition _ k | .whileCondition _ k =>
    k.enclosing?
  | .statement _ done k => some (done, k)

/-- Whether a statement list is a block, which a brace closes, rather than the
    whole program. -/
def BlockStack.isBlock : BlockStack → Bool
  | .program => false
  | _ => true

/-! ### Depth -/

mutual

/-- The number of constructs on a stack. -/
def ExprStack.depth : ExprStack → Nat
  | .alone => 0
  | .operand _ _ k | .right _ _ _ k | .group _ k | .argument _ _ _ k | .item _ _ k
  | .subscript _ _ k | .key _ _ k | .value _ _ _ k | .ifCondition _ k | .whileCondition _ k =>
    k.depth + 1
  | .statement _ _ k => k.depth + 1

/-- The number of constructs on a stack. -/
def BlockStack.depth : BlockStack → Nat
  | .program => 0
  | .consequence _ _ k | .alternative _ _ _ k | .loopBody _ _ k | .functionBody _ _ k =>
    k.depth + 1

end

/-- A statement list lies below every construct of its statement. -/
theorem ExprStack.enclosing?_depth_lt : ∀ {k : ExprStack} {done : Block} {outer : BlockStack},
    k.enclosing? = some (done, outer) → outer.depth < k.depth
  | .alone, _, _, h => by simp [ExprStack.enclosing?] at h
  | .operand _ _ k, _, _, h | .right _ _ _ k, _, _, h | .group _ k, _, _, h
  | .argument _ _ _ k, _, _, h | .item _ _ k, _, _, h | .subscript _ _ k, _, _, h
  | .key _ _ k, _, _, h | .value _ _ _ k, _, _, h | .ifCondition _ k, _, _, h
  | .whileCondition _ k, _, _, h => by
    have := ExprStack.enclosing?_depth_lt (k := k) (by simpa [ExprStack.enclosing?] using h)
    simp only [ExprStack.depth]
    omega
  | .statement _ _ k, _, _, h => by
    simp only [ExprStack.enclosing?, Option.some.injEq, Prod.mk.injEq] at h
    simp only [ExprStack.depth, ← h.2]
    omega

end Script
