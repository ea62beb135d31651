/-
  Script/Proofs/Session/Spelled.lean
  ==================================
  **Texts that stand for values.**

  A text spells a value if it writes an expression that gives this value in
  every scope and changes nothing.  Such texts can be put together, as literals
  are, and each of them, evaluated on its own, comes to the value.

  Main statements: `Spells.comesTo`; the texts of integers (`spells_numeral`,
  `Spells.negated`, `spells_integer`), of which only the least one has none.
-/
import Script.Proofs.Expr.Rendered
import Script.Proofs.Session.Run

namespace Script

/-- The text writes an expression that gives the value and changes nothing. -/
structure Spells [Digesting] (text : String) (e : Expr) (v : Value) : Prop where
  written : ∃ w, Yields (Expr.Written w e) text.toList
  gives : ∀ (i : ScopeId) (s : Store), (Task.expr e i).Gives s v s
  stays : v.endsBlock = false

theorem Value.isError_of_endsBlock {v : Value} (stays : v.endsBlock = false) :
    v.isError = false := by
  cases v <;> first | rfl | cases stays

theorem Value.unreturned_of_endsBlock {v : Value} (stays : v.endsBlock = false) :
    v.unreturned = v := by
  cases v <;> first | rfl | cases stays

namespace Spells

variable {text : String} {e : Expr} {v : Value}

theorem fine [Digesting] (spells : Spells text e v) : v.isError = false :=
  Value.isError_of_endsBlock spells.stays

theorem ofString [Digesting] (spells : Spells text e v) :
    Program.ofString text = .ok ⟨[.bare e]⟩ := by
  obtain ⟨w, yields⟩ := spells.written
  have scans := yields [] .nil
  rw [List.append_nil] at scans
  have written := TokenStream.ofString_of_scans scans
  have statement : Block.Written [.bare e] (TokenStream.ofString text).tokens := by
    simpa using Block.Written.cons (.bare written) .nil
  rw [Program.ofString, Parsed.ofString, Parsed.ofStream_of_block statement]
  rfl

/-- Evaluated on its own, the text comes to the value. -/
theorem comesTo [Digesting] (spells : Spells text e v) : ComesTo text v := by
  have gives : (Task.block [.bare e] Session.new.root).Gives Session.new.store v Session.new.store :=
    (spells.gives _ _).bare.last
  have evaluated := Session.evaluates_of_gives Session.rested_new spells.ofString gives
  rw [Value.unreturned_of_endsBlock spells.stays] at evaluated
  exact comesTo_of_evaluates evaluated

end Spells

/-! ### Integers -/

section Integers

variable [Digesting]

theorem spells_numeral {literal : String} {n : Int64} (numeral : IsNumeral literal)
    (denotes : integerOfLiteral? literal = some n) :
    Spells literal (.integer n) (.integer n) where
  written := ⟨_, yields_numeral numeral denotes⟩
  gives _ _ := Task.gives_integer n
  stays := rfl

/-- A sign before the digits negates what they denote. -/
theorem Spells.negated {literal : String} {n m : Int64}
    (spells : Spells literal (.integer n) (.integer m)) :
    Spells ("-" ++ literal) (.unary .negate (.integer n)) (.integer (-m)) where
  written := by
    obtain ⟨w, yields⟩ := spells.written
    refine ⟨false, ?_⟩
    intro rest stop
    have shape : ("-" ++ literal).toList ++ rest = '-' :: (literal.toList ++ rest) := by
      simp
    rw [shape]
    apply Scans.cons (cuts_symbol rfl _)
    intro t isSign _
    refine (yields rest stop).mono ?_
    intro ts written
    exact .unary (by rw [isSign]; rfl) written (by simp [Expr.root?])
  gives i s := (spells.gives i s).unary rfl .negate
  stays := rfl

omit [Digesting] in
theorem toInt_neg_of_ne {n : Int64} (other : n ≠ Int64.minValue) : (-n).toInt = -n.toInt := by
  have low := n.le_toInt
  have high := n.toInt_lt
  have least : n.toInt ≠ -2 ^ 63 := by
    intro least
    exact other (Int64.toInt.inj (least.trans Int64.toInt_minValue.symm))
  rw [Int64.toInt_neg]
  exact Int.bmod_eq_of_le (by omega) (by omega)

/-- The text of every integer but the least one spells it. -/
theorem spells_integer {n : Int64} (other : n ≠ Int64.minValue) :
    ∃ e, Spells (Value.integer n).render e (.integer n) := by
  by_cases nonneg : 0 ≤ n.toInt
  · exact ⟨_, spells_numeral (isNumeral_toString nonneg) (integerOfLiteral?_toString nonneg)⟩
  · have negated : (-n).toInt = -n.toInt := toInt_neg_of_ne other
    have positive : 0 ≤ (-n).toInt := by omega
    have digits := spells_numeral (isNumeral_toString positive) (integerOfLiteral?_toString positive)
    have text : (Value.integer n).render = "-" ++ toString (-n).toInt := by
      have signed : n.toInt.repr = "-" ++ (-n.toInt).toNat.repr := by
        rw [Int.repr_eq_if, if_neg nonneg]
      have unsigned : (-n).toInt.repr = (-n).toInt.toNat.repr := by
        rw [Int.repr_eq_if, if_pos positive]
      show n.toInt.repr = "-" ++ (-n).toInt.repr
      rw [signed, unsigned, negated]
    have spells := digits.negated
    rw [Int64.neg_neg, ← text] at spells
    exact ⟨_, spells⟩

end Integers

end Script
