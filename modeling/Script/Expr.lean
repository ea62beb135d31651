/-
  Script/Expr.lean
  ================
  **Expressions, statements and programs.**

  A program is a list of statements; a block is a list of statements in braces.
  Conditionals, loops and function literals are expressions.  Integer literals
  are 64-bit words, so a tree may hold literals that no text denotes.

  Main statement: equality of trees is decidable (`Expr.beq_iff`).
-/
namespace Script

/-! ### Operators -/

/-- Operators in front of one operand. -/
inductive UnaryOp where
  | not
  | negate
deriving DecidableEq, Repr, Inhabited

/-- Operators between two operands. -/
inductive BinaryOp where
  | add
  | sub
  | mul
  | div
  | equal
  | notEqual
  | less
  | greater
deriving DecidableEq, Repr, Inhabited

/-- How an operator is written. -/
def UnaryOp.symbol : UnaryOp → String
  | .not => "!"
  | .negate => "-"

/-- How an operator is written. -/
def BinaryOp.symbol : BinaryOp → String
  | .add => "+"
  | .sub => "-"
  | .mul => "*"
  | .div => "/"
  | .equal => "=="
  | .notEqual => "!="
  | .less => "<"
  | .greater => ">"

/-! ### Trees -/

mutual

/-- Expressions.  The blocks of a conditional, a loop and a function literal
    are lists of statements. -/
inductive Expr where
  | identifier (name : String)
  | integer (value : Int64)
  | string (text : String)
  | boolean (value : Bool)
  | unary (op : UnaryOp) (operand : Expr)
  | binary (left : Expr) (op : BinaryOp) (right : Expr)
  | conditional (condition : Expr) (consequence : List Stmt) (alternative : Option (List Stmt))
  | loop (condition : Expr) (body : List Stmt)
  | function (params : List String) (body : List Stmt)
  | call (callee : Expr) (args : List Expr)
  | array (items : List Expr)
  | table (pairs : List (Expr × Expr))
  | index (collection : Expr) (index : Expr)

/-- Statements: binding a new name, rebinding an old one, returning, a bare
    expression, and a nested block. -/
inductive Stmt where
  | define (name : String) (value : Expr)
  | assign (name : String) (value : Expr)
  | return (value : Expr)
  | bare (expr : Expr)
  | block (body : List Stmt)

end

instance : Inhabited Expr := ⟨.boolean false⟩
instance : Inhabited Stmt := ⟨.bare default⟩

/-- A sequence of statements in braces. -/
abbrev Block := List Stmt

structure Program where
  statements : Block
deriving Inhabited

/-! ### Equality of trees -/

mutual

def Expr.beq : Expr → Expr → Bool
  | .identifier a, .identifier b => a == b
  | .integer a, .integer b => a == b
  | .string a, .string b => a == b
  | .boolean a, .boolean b => a == b
  | .unary op a, .unary op' b => op == op' && a.beq b
  | .binary a op b, .binary a' op' b' => a.beq a' && op == op' && b.beq b'
  | .conditional c t e, .conditional c' t' e' =>
    c.beq c' && Block.beq t t' && Block.beqOption e e'
  | .loop c b, .loop c' b' => c.beq c' && Block.beq b b'
  | .function ps b, .function ps' b' => ps == ps' && Block.beq b b'
  | .call f as, .call f' as' => f.beq f' && Expr.beqList as as'
  | .array as, .array as' => Expr.beqList as as'
  | .table ps, .table ps' => Expr.beqPairs ps ps'
  | .index a i, .index a' i' => a.beq a' && i.beq i'
  | _, _ => false
termination_by structural a => a

def Stmt.beq : Stmt → Stmt → Bool
  | .define x a, .define y b => x == y && a.beq b
  | .assign x a, .assign y b => x == y && a.beq b
  | .return a, .return b => a.beq b
  | .bare a, .bare b => a.beq b
  | .block a, .block b => Block.beq a b
  | _, _ => false
termination_by structural a => a

def Block.beq : List Stmt → List Stmt → Bool
  | [], [] => true
  | a :: as, b :: bs => a.beq b && Block.beq as bs
  | _, _ => false
termination_by structural a => a

def Block.beqOption : Option (List Stmt) → Option (List Stmt) → Bool
  | none, none => true
  | some a, some b => Block.beq a b
  | _, _ => false
termination_by structural a => a

def Expr.beqList : List Expr → List Expr → Bool
  | [], [] => true
  | a :: as, b :: bs => a.beq b && Expr.beqList as bs
  | _, _ => false
termination_by structural a => a

def Expr.beqPairs : List (Expr × Expr) → List (Expr × Expr) → Bool
  | [], [] => true
  | (a, c) :: as, (b, d) :: bs => a.beq b && c.beq d && Expr.beqPairs as bs
  | _, _ => false
termination_by structural a => a

end

mutual

theorem Expr.beq_iff : ∀ {a b : Expr}, a.beq b = true ↔ a = b
  | .identifier _, b | .integer _, b | .string _, b | .boolean _, b => by
    cases b <;> simp [Expr.beq]
  | .unary _ e, b => by
    cases b <;> simp [Expr.beq, Expr.beq_iff (a := e)]
  | .binary l _ r, b => by
    cases b <;> simp [Expr.beq, Expr.beq_iff (a := l), Expr.beq_iff (a := r), and_assoc]
  | .conditional c t e, b => by
    cases b <;> simp [Expr.beq, Expr.beq_iff (a := c), Block.beq_iff (a := t),
      Block.beqOption_iff (a := e), and_assoc]
  | .loop c body, b => by
    cases b <;> simp [Expr.beq, Expr.beq_iff (a := c), Block.beq_iff (a := body)]
  | .function _ body, b => by
    cases b <;> simp [Expr.beq, Block.beq_iff (a := body)]
  | .call f args, b => by
    cases b <;> simp [Expr.beq, Expr.beq_iff (a := f), Expr.beqList_iff (a := args)]
  | .array items, b => by
    cases b <;> simp [Expr.beq, Expr.beqList_iff (a := items)]
  | .table pairs, b => by
    cases b <;> simp [Expr.beq, Expr.beqPairs_iff (a := pairs)]
  | .index c i, b => by
    cases b <;> simp [Expr.beq, Expr.beq_iff (a := c), Expr.beq_iff (a := i)]
termination_by structural a => a

theorem Stmt.beq_iff : ∀ {a b : Stmt}, a.beq b = true ↔ a = b
  | .define _ e, b | .assign _ e, b | .return e, b | .bare e, b => by
    cases b <;> simp [Stmt.beq, Expr.beq_iff (a := e)]
  | .block body, b => by
    cases b <;> simp [Stmt.beq, Block.beq_iff (a := body)]
termination_by structural a => a

theorem Block.beq_iff : ∀ {a b : List Stmt}, Block.beq a b = true ↔ a = b
  | [], b => by cases b <;> simp [Block.beq]
  | s :: ss, b => by
    cases b <;> simp [Block.beq, Stmt.beq_iff (a := s), Block.beq_iff (a := ss)]
termination_by structural a => a

theorem Block.beqOption_iff :
    ∀ {a b : Option (List Stmt)}, Block.beqOption a b = true ↔ a = b
  | none, b => by cases b <;> simp [Block.beqOption]
  | some body, b => by
    cases b <;> simp [Block.beqOption, Block.beq_iff (a := body)]
termination_by structural a => a

theorem Expr.beqList_iff : ∀ {a b : List Expr}, Expr.beqList a b = true ↔ a = b
  | [], b => by cases b <;> simp [Expr.beqList]
  | e :: es, b => by
    cases b <;> simp [Expr.beqList, Expr.beq_iff (a := e), Expr.beqList_iff (a := es)]
termination_by structural a => a

theorem Expr.beqPairs_iff :
    ∀ {a b : List (Expr × Expr)}, Expr.beqPairs a b = true ↔ a = b
  | [], b => by cases b <;> simp [Expr.beqPairs]
  | (key, value) :: ps, b => by
    rcases b with _ | ⟨⟨key', value'⟩, ps'⟩ <;>
      simp [Expr.beqPairs, Expr.beq_iff (a := key), Expr.beq_iff (a := value),
        Expr.beqPairs_iff (a := ps)]
termination_by structural a => a

end

instance : DecidableEq Expr := fun _ _ => decidable_of_iff _ Expr.beq_iff
instance : DecidableEq Stmt := fun _ _ => decidable_of_iff _ Stmt.beq_iff

instance : DecidableEq Program := fun a b =>
  decidable_of_iff (Block.beq a.statements b.statements = true) <| by
    cases a; cases b; simp [Block.beq_iff]

end Script
