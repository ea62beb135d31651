/-
  Script/Eval/Operator.lean
  =========================
  **Operators and subscripts on values.**

  Integers are 64-bit words: sums, differences and products wrap around, and a
  quotient is cut off towards zero, with the one quotient that does not fit
  wrapping too.  An operator either computes a value or yields the error value
  of a failure.
-/
import Script.Eval.Failure

namespace Script

/-- Apply a unary operator.  Negation of truth works on every value. -/
def UnaryOp.apply : UnaryOp → Value → Value
  | .not, v => .boolean (!v.truthy)
  | .negate, .integer n => .integer (-n)
  | .negate, v => (Failure.unaryOperator .negate v.kind).value

/-- Apply a binary operator to two integers. -/
def BinaryOp.applyInteger : BinaryOp → Int64 → Int64 → Value
  | .add, a, b => .integer (a + b)
  | .sub, a, b => .integer (a - b)
  | .mul, a, b => .integer (a * b)
  | .div, a, b => if b = 0 then Failure.divisionByZero.value else .integer (a / b)
  | .less, a, b => .boolean (decide (a < b))
  | .greater, a, b => .boolean (decide (b < a))
  | .equal, a, b => .boolean (a == b)
  | .notEqual, a, b => .boolean (a != b)

/-- Apply a binary operator.  Strings can be joined, booleans compared; two
    operands of different kinds never fit. -/
def BinaryOp.apply (op : BinaryOp) (left right : Value) : Value :=
  match left, right, op with
  | .integer a, .integer b, op => op.applyInteger a b
  | .string a, .string b, .add => .string (a ++ b)
  | .boolean a, .boolean b, .equal => .boolean (a == b)
  | .boolean a, .boolean b, .notEqual => .boolean (a != b)
  | left, right, op =>
    if left.kind = right.kind then (Failure.binaryOperator left.kind op right.kind).value
    else (Failure.mismatch left.kind op right.kind).value

/-- The value that a collection holds at an index.  A place outside an array
    and a key that a table does not have hold null. -/
def Value.at [Digesting] : Value → Value → Value
  | .array items, .integer i =>
    match i.toInt with
    | .ofNat n => (items[n]?).getD .null
    | .negSucc _ => .null
  | .table entries, key =>
    match key.key? with
    | some k => ((entries.get? k).map Prod.snd).getD .null
    | none => (Failure.unusableKey key.kind).value
  | collection, _ => (Failure.notIndexable collection.kind).value

end Script
