/-
  Script/Proofs/Session/Numeral.lean
  ==================================
  **Digits as programs.**

  A run of decimal digits, leading zeros or not, is a program that comes to the
  number which the digits stand for, and with a sign before it to the negated
  number.  If that number is no integer of the language, the text is rejected:
  the digits are the one fault, with or without the sign.  So the least integer,
  whose digits stand for a number one too large, is the only one that cannot be
  read from its own text.

  Main statements: the tokens of such texts (`TokenStream.ofString_numeral`,
  `TokenStream.ofString_negated`), what the parser makes of digits that are too
  many (`Parsed.ofStream_tooLarge`), and `evalText_numeral`.
-/
import Mathlib.Data.Nat.Digits.Defs
import Script.Proofs.Parse.Isolated
import Script.Proofs.Session.Spelled
import Script.Proofs.Token.Lossless

namespace Script

/-! ### The number that digits stand for -/

/-- The number that a run of decimal digits stands for, the last one for the ones. -/
def numeralValue (literal : String) : Nat :=
  Nat.ofDigits 10 (literal.toList.reverse.map fun c => c.toNat - '0'.toNat)

theorem decimalValue_toList (literal : String) :
    decimalValue literal.toList = numeralValue literal := by
  unfold numeralValue
  induction literal.toList using List.reverseRecOn with
  | nil => rfl
  | append_singleton cs c ih =>
    have last : decimalValue (cs ++ [c]) = 10 * decimalValue cs + (c.toNat - '0'.toNat) := by
      simp [decimalValue]
    rw [last, ih, List.reverse_append, List.reverse_singleton, List.singleton_append, List.map_cons,
      Nat.ofDigits_cons, Nat.add_comm]

/-! ### The tokens -/

section Tokens

variable {literal : String}

/-- Digits up to the end of the text are one token. -/
theorem Scanner.drainOnto_numeral (numeral : IsNumeral literal) (p : Position) (done : List Token) :
    ∃ stop, (⟨p, literal.toList⟩ : Scanner).drainOnto done = ⟨done.reverse ++
      [⟨.integer, literal, ⟨p.offset, p.offset + literal.utf8ByteSize, p.line, p.column⟩⟩], stop⟩ := by
  obtain ⟨c, cs, chars⟩ := List.exists_cons_of_ne_nil numeral.1
  have all : ∀ d ∈ c :: cs, d.isDigit = true := chars ▸ List.all_eq_true.mp numeral.2
  have cut := Lexeme.ofChars_digits all .nil
  rw [List.append_nil] at cut
  have next := next?_lexeme (isBlank_of_digit (all c (by simp))) p cs
  simp only [cut, Lexeme.plain, ← chars, String.ofList_toList, Position.offset_afterAll,
    String.utf8Len_toList] at next
  refine ⟨(⟨p.afterAll literal.toList, []⟩ : Scanner).endSpan, ?_⟩
  rw [drainOnto_of_next? next, drainOnto_of_end rfl, List.reverse_cons]

theorem TokenStream.ofString_numeral (numeral : IsNumeral literal) :
    ∃ stop, TokenStream.ofString literal =
      ⟨[⟨.integer, literal, ⟨0, literal.utf8ByteSize, 1, 1⟩⟩], stop⟩ := by
  obtain ⟨stop, drained⟩ := Scanner.drainOnto_numeral numeral .start []
  refine ⟨stop, drained.trans ?_⟩
  simp [Position.start]

theorem TokenStream.ofString_negated (numeral : IsNumeral literal) :
    ∃ stop, TokenStream.ofString ("-" ++ literal) =
      ⟨[⟨.minus, "-", ⟨0, 1, 1, 1⟩⟩,
        ⟨.integer, literal, ⟨1, 1 + literal.utf8ByteSize, 1, 2⟩⟩], stop⟩ := by
  obtain ⟨stop, drained⟩ := Scanner.drainOnto_numeral numeral (Position.start.after '-')
    [⟨.minus, "-", ⟨0, 1, 1, 1⟩⟩]
  have chars : ("-" ++ literal).toList = '-' :: literal.toList := by simp
  have next := Scanner.next?_lexeme (c := '-') rfl .start literal.toList
  refine ⟨stop, ?_⟩
  rw [TokenStream.ofString, Scanner.ofString, chars, Scanner.drainOnto_of_next? next]
  exact drained

end Tokens

/-! ### The fault -/

namespace ParseState

theorem parsed_of_step? {s s' : ParseState} (h : s.step? = some s') : parsed s = parsed s' := by
  rw [parsed, parsed, finish_of_step? h]

/-- A fault at the end of the text drops the statement it is found in. -/
theorem parsed_failed {k : ExprStack} {done : Block}
    (around : k.enclosing? = some (done, .program)) (last : Token) (stop : Span)
    (ds : List Diagnostic) :
    parsed ⟨.failed k, ⟨last, [], stop⟩, ds⟩ = ⟨⟨done⟩, ds⟩ := by
  have next : step? ⟨.failed k, ⟨last, [], stop⟩, ds⟩ =
      some ⟨.statements done .program, ⟨last, [], stop⟩, ds⟩ := by
    simp [step?, recover, around, Cursor.resume, BlockStack.isBlock, goto]
  rw [parsed_of_step? next, parsed_ended]

end ParseState

namespace Parsed

variable {literal : String} (large : integerOfLiteral? literal = none) (span stop : Span)

include large

theorem ofStream_tooLarge :
    Parsed.ofStream ⟨[⟨.integer, literal, span⟩], stop⟩ =
      ⟨⟨[]⟩, [⟨.integerTooLarge literal, span⟩]⟩ := by
  let t : Token := ⟨.integer, literal, span⟩
  let k : ExprStack := .statement .bare [] .program
  have fails : (ParseState.start ⟨[t], stop⟩).step? =
      some ⟨.failed k, ⟨t, [], stop⟩, [⟨.integerTooLarge literal, span⟩]⟩ := by
    simp [ParseState.start, Cursor.ofStream, ParseState.step?, ParseState.nextStatement,
      ParseState.beginStatement, ParseState.readOperand, ParseState.fail, BlockStack.isBlock,
      large, k, t]
  exact (ParseState.parsed_of_step? fails).trans (ParseState.parsed_failed rfl _ _ _)

/-- A sign before the digits does not help. -/
theorem ofStream_negated_tooLarge (text : String) (span' : Span) :
    Parsed.ofStream ⟨[⟨.minus, text, span'⟩, ⟨.integer, literal, span⟩], stop⟩ =
      ⟨⟨[]⟩, [⟨.integerTooLarge literal, span⟩]⟩ := by
  let sign : Token := ⟨.minus, text, span'⟩
  let t : Token := ⟨.integer, literal, span⟩
  let k : ExprStack := .operand .negate .lowest (.statement .bare [] .program)
  have begins : (ParseState.start ⟨[sign, t], stop⟩).step? =
      some ⟨.operand .unary k, ⟨sign, [t], stop⟩, []⟩ := by
    simp [ParseState.start, Cursor.ofStream, ParseState.step?, ParseState.nextStatement,
      ParseState.beginStatement, ParseState.readOperand, ParseState.goto, BlockStack.isBlock,
      sign, k]
  have fails : ParseState.step? ⟨.operand .unary k, ⟨sign, [t], stop⟩, []⟩ =
      some ⟨.failed k, ⟨t, [], stop⟩, [⟨.integerTooLarge literal, span⟩]⟩ := by
    simp [ParseState.step?, ParseState.readOperand, ParseState.fail, large, t]
  exact (ParseState.parsed_of_step? begins).trans
    ((ParseState.parsed_of_step? fails).trans (ParseState.parsed_failed rfl _ _ _))

end Parsed

/-! ### The texts -/

theorem evalText_of_rejected [Digesting] {source : String} {p : Program} {d : Diagnostic}
    (parsed : Parsed.ofString source = ⟨p, [d]⟩) (fuel : Nat) :
    evalText fuel source = some (.error [d]) := by
  have rejected : Program.ofString source = .error [d] := by
    rw [Program.ofString, parsed]
    rfl
  rw [evalText, Session.eval, rejected]
  rfl

section Numeral

variable {literal : String} (numeral : IsNumeral literal)

include numeral

/-- Digits for a number in range are read as that number. -/
theorem spells_of_lt [Digesting] (small : numeralValue literal < 2 ^ 63) :
    ∃ n : Int64, n.toInt = numeralValue literal ∧ Spells literal (.integer n) (.integer n) := by
  have bounded : decimalValue literal.toList ≤ maxInteger := by
    rw [decimalValue_toList]
    exact Nat.le_of_lt_succ small
  refine ⟨_, ?_, spells_numeral numeral (integerOfLiteral?_of_le numeral bounded)⟩
  rw [decimalValue_toList, Int64.toInt_ofNat_of_lt small]

theorem integerOfLiteral?_of_ge (large : 2 ^ 63 ≤ numeralValue literal) :
    integerOfLiteral? literal = none := by
  rw [integerOfLiteral?_eq_none numeral, decimalValue_toList]
  exact large

theorem evalText_tooLarge [Digesting] (large : 2 ^ 63 ≤ numeralValue literal) (fuel : Nat) :
    evalText fuel literal =
      some (.error [⟨.integerTooLarge literal, ⟨0, literal.utf8ByteSize, 1, 1⟩⟩]) := by
  obtain ⟨stop, stream⟩ := TokenStream.ofString_numeral numeral
  have parsed := Parsed.ofStream_tooLarge (integerOfLiteral?_of_ge numeral large)
    ⟨0, literal.utf8ByteSize, 1, 1⟩ stop
  rw [← stream] at parsed
  exact evalText_of_rejected parsed fuel

theorem evalText_negated_tooLarge [Digesting] (large : 2 ^ 63 ≤ numeralValue literal) (fuel : Nat) :
    evalText fuel ("-" ++ literal) =
      some (.error [⟨.integerTooLarge literal, ⟨1, 1 + literal.utf8ByteSize, 1, 2⟩⟩]) := by
  obtain ⟨stop, stream⟩ := TokenStream.ofString_negated numeral
  have parsed := Parsed.ofStream_negated_tooLarge (integerOfLiteral?_of_ge numeral large)
    ⟨1, 1 + literal.utf8ByteSize, 1, 2⟩ stop "-" ⟨0, 1, 1, 1⟩
  rw [← stream] at parsed
  exact evalText_of_rejected parsed fuel

end Numeral

/-- **Digits are read as the number they stand for.**  A run of digits, evaluated
    on its own, comes to that number, and with a sign to the negated one, if the
    number is no larger than the largest integer; otherwise the digits are the one
    fault of the text.  So every integer is what its own text comes to, but for the
    least one, whose text is rejected. -/
theorem evalText_numeral [Digesting] :
    (∀ literal, IsNumeral literal →
      (numeralValue literal < 2 ^ 63 →
        (∃ n : Int64, n.toInt = numeralValue literal ∧ ComesTo literal (.integer n)) ∧
        ∃ n : Int64, n.toInt = -numeralValue literal ∧ ComesTo ("-" ++ literal) (.integer n)) ∧
      (2 ^ 63 ≤ numeralValue literal → ∀ fuel,
        evalText fuel literal =
          some (.error [⟨.integerTooLarge literal, ⟨0, literal.utf8ByteSize, 1, 1⟩⟩]) ∧
        evalText fuel ("-" ++ literal) =
          some (.error [⟨.integerTooLarge literal, ⟨1, 1 + literal.utf8ByteSize, 1, 2⟩⟩]))) ∧
    (∀ n : Int64, n ≠ Int64.minValue → ComesTo (Value.integer n).render (.integer n)) ∧
    ∀ fuel, evalText fuel (Value.integer Int64.minValue).render =
      some (.error [⟨.integerTooLarge "9223372036854775808", ⟨1, 20, 1, 2⟩⟩]) := by
  refine ⟨?_, ?_, ?_⟩
  · intro literal numeral
    constructor
    · intro small
      obtain ⟨n, value, spells⟩ := spells_of_lt numeral small
      have other : n ≠ Int64.minValue := by
        rintro rfl
        rw [Int64.toInt_minValue] at value
        omega
      have negated : (-n).toInt = -numeralValue literal := by
        rw [toInt_neg_of_ne other, value]
      exact ⟨⟨n, value, spells.comesTo⟩, -n, negated, spells.negated.comesTo⟩
    · intro large fuel
      exact ⟨evalText_tooLarge numeral large fuel, evalText_negated_tooLarge numeral large fuel⟩
  · intro n other
    obtain ⟨e, spells⟩ := spells_integer other
    exact spells.comesTo
  · intro fuel
    have numeral : IsNumeral "9223372036854775808" := by decide
    have large : 2 ^ 63 ≤ numeralValue "9223372036854775808" := by decide
    exact evalText_negated_tooLarge numeral large fuel

/-- The largest integer behind zeros, the first number that is none, and a negative
    integer from its own text. -/
theorem evalText_numeral_largest :
    let _ : Digesting := ⟨fun _ => 0⟩
    ComesTo "0009223372036854775807" (.integer Int64.maxValue) ∧
      ComesTo "-0009223372036854775807" (.integer (-Int64.maxValue)) ∧
      (∀ fuel, evalText fuel "09223372036854775808" =
        some (.error [⟨.integerTooLarge "09223372036854775808", ⟨0, 20, 1, 1⟩⟩])) ∧
      ComesTo "-42" (.integer (-42)) := by
  intro _
  obtain ⟨digits, others, -⟩ := evalText_numeral
  obtain ⟨⟨n, value, comes⟩, m, value', comes'⟩ :=
    (digits "0009223372036854775807" (by decide)).1 (by decide)
  have largest : n = Int64.maxValue := Int64.toInt.inj (value.trans (by decide))
  have negated : m = -Int64.maxValue := Int64.toInt.inj (value'.trans (by decide))
  subst largest negated
  have rejected (fuel : Nat) := ((digits "09223372036854775808" (by decide)).2 (by decide) fuel).1
  exact ⟨comes, comes', rejected, others (-42) (by decide)⟩

end Script
