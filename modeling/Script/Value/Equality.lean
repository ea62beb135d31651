/-
  Script/Value/Equality.lean
  ==========================
  **Equality of values.**

  Functions are equal when they are one and the same, built-in functions when
  they have one name; arrays and tables are compared part by part, tables in
  the order of their entries.
-/
import Script.Value

namespace Script

mutual

/-- Whether two values are equal. -/
def Value.beq : Value → Value → Bool
  | .integer a, .integer b => a == b
  | .boolean a, .boolean b => a == b
  | .string a, .string b => a == b
  | .null, .null => true
  | .returned a, .returned b => a.beq b
  | .error a, .error b => a == b
  | .function a _ _ _, .function b _ _ _ => a == b
  | .builtin a, .builtin b => a == b
  | .array as, .array bs => Value.beqList as bs
  | .table ⟨as⟩, .table ⟨bs⟩ => Value.beqEntries as bs
  | _, _ => false

def Value.beqList : List Value → List Value → Bool
  | [], [] => true
  | a :: as, b :: bs => a.beq b && Value.beqList as bs
  | _, _ => false

def Value.beqEntries :
    List (Key × (Value × Value)) → List (Key × (Value × Value)) → Bool
  | [], [] => true
  | (k, (a, x)) :: as, (l, (b, y)) :: bs =>
    k == l && a.beq b && x.beq y && Value.beqEntries as bs
  | _, _ => false

end

instance : BEq Value := ⟨Value.beq⟩

end Script
