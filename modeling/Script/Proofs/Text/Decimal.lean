/-
  Script/Proofs/Text/Decimal.lean
  ===============================
  **The integers that have a literal.**

  A literal denotes an integer that is not negative; each of these is denoted
  by its decimal digits, and no digits denote any other.

  Main statements: `integerOfLiteral?_eq_some`, `integerOfLiteral?_eq_none`,
  `integerOfLiteral?_toString`.
-/
import Script.Text.Decimal

namespace Script

theorem integerOfLiteral?_eq_some {literal : String} {n : Int64}
    (h : integerOfLiteral? literal = some n) :
    0 ≤ n.toInt ∧ decimalValue literal.toList = n.toInt.toNat := by
  unfold integerOfLiteral? at h
  dsimp only at h
  split at h
  · rename_i bounds
    cases h
    have small : decimalValue literal.toList < 2 ^ 63 := Nat.lt_of_le_pred (by decide) bounds.2.2
    rw [Int64.toInt_ofNat_of_lt small]
    exact ⟨Int.natCast_nonneg _, rfl⟩
  · cases h

/-- A run of digits, at least one. -/
def IsNumeral (literal : String) : Prop :=
  literal.toList ≠ [] ∧ literal.toList.all Char.isDigit = true

instance (literal : String) : Decidable (IsNumeral literal) :=
  inferInstanceAs (Decidable (literal.toList ≠ [] ∧ literal.toList.all Char.isDigit = true))

theorem integerOfLiteral?_of_le {literal : String} (numeral : IsNumeral literal)
    (small : decimalValue literal.toList ≤ maxInteger) :
    integerOfLiteral? literal = some (Int64.ofNat (decimalValue literal.toList)) :=
  if_pos ⟨numeral.1, numeral.2, small⟩

/-- A run of digits denotes no integer just if its value is too large. -/
theorem integerOfLiteral?_eq_none {literal : String} (numeral : IsNumeral literal) :
    integerOfLiteral? literal = none ↔ maxInteger < decimalValue literal.toList := by
  obtain ⟨solid, digits⟩ := numeral
  simp [integerOfLiteral?, solid, digits]

/-- An integer that is not negative is written as its decimal digits. -/
theorem toString_toInt {n : Int64} (nonneg : 0 ≤ n.toInt) :
    toString n.toInt = String.ofList (Nat.toDigits 10 n.toInt.toNat) := by
  have natural : n.toInt = (n.toInt.toNat : Int) := (Int.toNat_of_nonneg nonneg).symm
  rw [natural]
  exact Nat.repr_eq_ofList_toDigits

theorem decimalValue_toDigits (n : Nat) : decimalValue (Nat.toDigits 10 n) = n :=
  Nat.ofDigitChars_ten_toDigits

theorem isDigit_of_mem_toDigits {n : Nat} {c : Char} (h : c ∈ Nat.toDigits 10 n) :
    c.isDigit = true :=
  Nat.isDigit_of_mem_toDigits (by decide) (by decide) h

theorem isNumeral_toString {n : Int64} (nonneg : 0 ≤ n.toInt) : IsNumeral (toString n.toInt) := by
  rw [IsNumeral, toString_toInt nonneg, String.toList_ofList]
  exact ⟨Nat.toDigits_ne_nil, List.all_eq_true.mpr fun _ => isDigit_of_mem_toDigits⟩

theorem integerOfLiteral?_toString {n : Int64} (nonneg : 0 ≤ n.toInt) :
    integerOfLiteral? (toString n.toInt) = some n := by
  have value : decimalValue (toString n.toInt).toList = n.toInt.toNat := by
    rw [toString_toInt nonneg, String.toList_ofList, decimalValue_toDigits]
  have small : n.toInt.toNat ≤ maxInteger := by
    have := n.toInt_lt
    unfold maxInteger
    omega
  have same : Int64.ofNat n.toInt.toNat = n := by
    apply Int64.toInt.inj
    rw [Int64.toInt_ofNat_of_lt (Nat.lt_of_le_pred (by decide) small)]
    exact Int.toNat_of_nonneg nonneg
  rw [integerOfLiteral?_of_le (isNumeral_toString nonneg) (value ▸ small), value, same]

end Script
