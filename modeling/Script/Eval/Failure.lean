/-
  Script/Eval/Failure.lean
  ========================
  **What can go wrong while a program runs.**

  A failure is a cause; `Failure.message` is its wording.  A failing
  computation yields the error value with that message.
-/
import Script.Value

namespace Script

/-- Why a computation fails. -/
inductive Failure where
  /-- The operands of a binary operator are of two kinds. -/
  | mismatch (left : Kind) (op : BinaryOp) (right : Kind)
  /-- The operands of a binary operator are of one kind, but not one it takes. -/
  | binaryOperator (left : Kind) (op : BinaryOp) (right : Kind)
  /-- The operand of a unary operator is not of a kind it takes. -/
  | unaryOperator (op : UnaryOp) (operand : Kind)
  | unbound (name : String)
  | notCallable (callee : Kind)
  /-- The value cannot be the key of a table. -/
  | unusableKey (key : Kind)
  /-- The collection cannot be indexed in this way. -/
  | notIndexable (collection : Kind)
  | stackOverflow
  | divisionByZero
  /-- A built-in function takes another number of arguments. -/
  | arity (got : Nat) (want : String)
  /-- A built-in function does not take an argument of this kind. -/
  | unsupportedArgument (builtin : Builtin) (got : Kind)
deriving DecidableEq, Repr

def Failure.message : Failure → String
  | .mismatch l op r => "type mismatch: " ++ l.name ++ " " ++ op.symbol ++ " " ++ r.name
  | .binaryOperator l op r => "unknown operator: " ++ l.name ++ " " ++ op.symbol ++ " " ++ r.name
  | .unaryOperator op v => "unknown operator: " ++ op.symbol ++ v.name
  | .unbound name => "identifier not found: " ++ name
  | .notCallable callee => "not a function: " ++ callee.name
  | .unusableKey key => "unusable as hash key: " ++ key.name
  | .notIndexable collection => "index operator not supported: " ++ collection.name
  | .stackOverflow => "stack overflow"
  | .divisionByZero => "division by zero"
  | .arity got want => "wrong number of arguments. got=" ++ toString got ++ ", want=" ++ want
  | .unsupportedArgument b got =>
    "argument to `" ++ b.name ++ "` not supported, got " ++ got.name

def Failure.value (f : Failure) : Value := .error f.message

end Script
