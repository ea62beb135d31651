/-
  Script/Eval/Machine.lean
  ========================
  **The evaluator's configurations.**

  Programs run on a machine with an explicit stack.  Its control says what to
  do next, its stack says what to do with the value that comes of it, and its
  store holds what outlives both: the scopes, the number of calls that are
  active, and the text printed so far.
-/
import Script.Builtin.Call
import Script.Eval.Operator
import Script.Heap

namespace Script

/-! ### Stores -/

/-- The largest number of calls that may be active at once. -/
def maxCallDepth : Nat := 10000

/-- What a run changes: scopes, the number of function values made, the number
    of active calls, and the text printed. -/
structure Store where
  heap : Heap
  functions : Nat
  depth : Nat
  output : String
deriving Inhabited

namespace Store

def empty : Store := ⟨.empty, 0, 0, ""⟩

/-- Make a scope, and say which it is. -/
def alloc (s : Store) (parent? : Option ScopeId) (bindings : Table String Value) :
    ScopeId × Store :=
  (s.heap.size, { s with heap := s.heap.alloc parent? bindings })

def define (s : Store) (scope : ScopeId) (name : String) (v : Value) : Store :=
  { s with heap := s.heap.define scope name v }

def print (s : Store) (text : String) : Store := { s with output := s.output ++ text }

end Store

/-! ### Configurations -/

/-- What to do with the value that is being computed. -/
inductive Frame where
  | unary (op : UnaryOp)
  /-- It is a left operand; evaluate the right one. -/
  | left (op : BinaryOp) (right : Expr) (scope : ScopeId)
  /-- It is a right operand; apply the operator. -/
  | right (op : BinaryOp) (left : Value)
  /-- It decides between two blocks. -/
  | branch (consequence : Block) (alternative : Option Block) (scope : ScopeId)
  /-- It decides whether a loop goes on. -/
  | test (condition : Expr) (body : Block) (scope : ScopeId)
  /-- It is the result of a loop body; test again. -/
  | again (condition : Expr) (body : Block) (scope : ScopeId)
  /-- It is the value to be called; evaluate the arguments. -/
  | callee (args : List Expr) (scope : ScopeId)
  /-- It is an argument, behind those evaluated and before those that are not. -/
  | argument (callee : Value) (done : List Value) (rest : List Expr) (scope : ScopeId)
  | item (done : List Value) (rest : List Expr) (scope : ScopeId)
  /-- It is a key of a table, behind the entries so far. -/
  | key (done : Entries) (value : Expr) (rest : List (Expr × Expr)) (scope : ScopeId)
  | value (done : Entries) (place : Key) (key : Value) (rest : List (Expr × Expr))
      (scope : ScopeId)
  /-- It is a collection; evaluate the index. -/
  | collection (index : Expr) (scope : ScopeId)
  /-- It is an index; look up. -/
  | index (collection : Value)
  | define (name : String) (scope : ScopeId)
  | assign (name : String) (scope : ScopeId)
  /-- It is the payload of a return. -/
  | return
  /-- It is the result of a statement; go on with the rest of the block. -/
  | sequence (rest : Block) (scope : ScopeId)
  /-- It is the result of a function body; the call ends. -/
  | leave

/-- What to do next: evaluate an expression or execute statements in a scope,
    call a value, or hand a value to the stack. -/
inductive Control where
  | eval (e : Expr) (scope : ScopeId)
  | exec (block : Block) (scope : ScopeId)
  | call (callee : Value) (args : List Value)
  | give (v : Value)

/-- A configuration of the machine; the stack has its innermost frame first. -/
structure Machine where
  control : Control
  stack : List Frame
  store : Store

/-- How a run ends: with a value, or by leaving the program with a code. -/
inductive Outcome where
  | value (v : Value)
  | exit (code : Int32)

/-- What a step leads to. -/
inductive Progress where
  | running (m : Machine)
  | halted (outcome : Outcome) (store : Store)

end Script
