/-
  Script/Text/Decimal.lean
  ========================
  **Decimal integer literals.**

  A literal is a run of digits; leading zeros do not matter.  It denotes a
  64-bit word only if its value does not exceed the largest one.
-/
namespace Script

/-- The value of a run of decimal digits. -/
def decimalValue (digits : List Char) : Nat :=
  digits.foldl (fun n c => 10 * n + (c.toNat - '0'.toNat)) 0

/-- The largest integer of the language. -/
def maxInteger : Nat := 9223372036854775807

/-- The integer that a literal denotes, if it is a run of digits in range. -/
def integerOfLiteral? (literal : String) : Option Int64 :=
  let digits := literal.toList
  if digits ≠ [] ∧ digits.all Char.isDigit ∧ decimalValue digits ≤ maxInteger then
    some (Int64.ofNat (decimalValue digits))
  else none

end Script
