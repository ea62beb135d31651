/-
  Script/Builtin/Call.lean
  ========================
  **What the built-in functions do.**

  Most built-in functions only compute a value.  One of them also prints a
  line, and one may end the whole run.
-/
import Script.Eval.Failure
import Script.Value.Render

namespace Script

/-- What comes of a call of a built-in function: a value, a value after a line
    has been printed, or the end of the run with an exit code. -/
inductive Reply where
  | value (v : Value)
  | printed (line : String) (v : Value)
  | exit (code : Int32)

namespace Builtin

/-- The line that printing the given values writes: a blank follows each. -/
def printedLine (args : List Value) : String :=
  String.join (args.map fun v => v.render ++ " ")

/-- The value of a call with as many arguments as the function takes.  An
    argument of a kind it does not take is a failure that names the first. -/
def compute : Builtin → List Value → Value
  | .len, [.string text] => .integer (Int64.ofNat text.utf8ByteSize)
  | .len, [.array items] => .integer (Int64.ofNat items.length)
  | .len, [.table entries] => .integer (Int64.ofNat entries.size)
  | .type, [.string _] => .string "String"
  | .type, [.array _] => .string "Array"
  | .type, [.integer _] => .string "Integer"
  | .type, [.function ..] => .string "Function"
  | .type, [.boolean _] => .string "Boolean"
  | .type, [.table _] => .string "HashMap"
  | .first, [.array items] => items.head?.getD .null
  | .last, [.array items] => items.getLast?.getD .null
  | .rest, [.array []] => .null
  | .rest, [.array (_ :: items)] => .array items
  | .push, [.array items, v] => .array (items ++ [v])
  | .keys, [.table entries] => .array (entries.values.map Prod.fst)
  | b, v :: _ => (Failure.unsupportedArgument b v.kind).value
  | _, [] => .null

/-- A call of a function that takes any number of arguments. -/
def callAny : Builtin → List Value → Reply
  | .exit, [] => .exit 0
  | .exit, [.integer code] => .exit code.toInt32
  | .exit, [v] => .value (Failure.unsupportedArgument .exit v.kind).value
  | .exit, args => .value (Failure.arity args.length "1 or 0").value
  | .print, args => .printed (printedLine args ++ "\n") .null
  | b, args => .value (b.compute args)

def call (b : Builtin) (args : List Value) : Reply :=
  match b.arity? with
  | none => b.callAny args
  | some n =>
    if args.length = n then .value (b.compute args)
    else .value (Failure.arity args.length (toString n)).value

end Builtin

end Script
