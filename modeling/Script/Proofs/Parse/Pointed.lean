/-
  Script/Proofs/Parse/Pointed.lean
  ================================
  **The caret is under the token.**

  A diagnostic has the line and the column of its token as the scanner counted
  them, and shows a line that comes of cutting the text into lines.  The line it
  shows is the one in which the token stands, in which only the line end may be
  missing, and the caret below is under the first character of the token.  Behind
  the last line there is no line to be shown, and only the end token can be there.

  The only text that a diagnostic quotes is a numeral, so what it says does not
  depend on the characters that are escaped between quotes.

  Main statements: `Token.Stands.shown`, `Token.Stands.not_shown_iff`,
  `Parsed.message_ofString` and `Parsed.pointed_ofString`.
-/
import Mathlib
import Script.Proofs.Parse.Located
import Script.Proofs.Token.Placed

namespace Script

/-! ### Tokens in their lines -/

/-- A line shows a token: the character in the column of the token is the first one
    that the token covers, and it has the same place in the text as in the line. -/
structure Token.ShownIn (source : String) (t : Token) (line : String) : Prop where
  column : 1 ≤ t.span.column
  first : ∃ c, line.toList[t.span.column - 1]? = some c ∧
    (slice source t.span.start t.span.stop).toList.head? = some c
  place : ∃ above below, source.toList = above ++ line.toList ++ below ∧
    t.span.start = String.utf8Len (above ++ line.toList.take (t.span.column - 1))

section Stands

variable {source : String} {t : Token} {before inside behind : List Char}

/-- The line of a token that is not the end token shows it. -/
theorem Token.Stands.shown (stands : t.Stands source before inside behind)
    (proper : t.kind ≠ .endOfInput) :
    ∃ line, sourceLine? source t.span.line = some line ∧ t.ShownIn source line := by
  obtain ⟨c, cs, rfl, solid⟩ := stands.solid proper
  have feed : c ≠ '\n' := by
    rintro rfl
    cases solid
  have carriage : c ≠ '\r' := by
    rintro rfl
    cases solid
  have text : source.toList = before ++ c :: (cs ++ behind) := by
    rw [stands.text, List.append_assoc, List.cons_append]
  obtain ⟨more, below, first, rest⟩ :=
    exists_head?_linesOf (feed_not_mem_behindFeed before) feed carriage (cs ++ behind)
  obtain ⟨ls, cut, -⟩ := exists_endedLines before
  have column : t.span.column - 1 = (behindFeed before).length := by
    rw [stands.column, Nat.add_sub_cancel_left]
  refine ⟨String.ofList (behindFeed before ++ c :: more), ?_, ?_⟩
  · rw [stands.line, sourceLine?_of_text text, first]
    rfl
  · constructor
    · rw [stands.column]
      exact Nat.le_add_right _ _
    · refine ⟨c, ?_, ?_⟩
      · rw [String.toList_ofList, column, List.getElem?_append_right (Nat.le_refl _), Nat.sub_self]
        rfl
      · rw [slice_cut stands.text stands.start stands.stop, String.toList_ofList]
        rfl
    · refine ⟨endedLines ls, below, ?_, ?_⟩
      · rw [String.toList_ofList, text, rest, ← List.append_assoc (endedLines ls), ← cut]
        simp
      · rw [String.toList_ofList, column, List.take_left, ← cut]
        exact stands.start

/-- There is no line for the end token just if the text is empty or ends with a line
    feed. -/
theorem Token.Stands.not_shown_iff (stands : t.Stands source before inside behind)
    (ended : t.kind = .endOfInput) :
    sourceLine? source t.span.line = none ↔ source = "" ∨ source.toList.getLast? = some '\n' := by
  obtain ⟨rfl, rfl⟩ := stands.ended ended
  have text : source.toList = before ++ [] := by
    rw [stands.text, List.append_nil]
  have whole : source.toList = before := by
    rw [text, List.append_nil]
  rw [stands.line, sourceLine?_of_text text, Option.map_eq_none_iff, List.append_nil,
    head?_linesOf_eq_none_iff (feed_not_mem_behindFeed before), behindFeed_eq_nil_iff, whole,
    ← String.toList_eq_nil_iff, whole]

end Stands

/-! ### What a diagnostic says -/

/-- Digits need no escape. -/
theorem escapeChar_of_isDigit [Escaping] {c : Char} (digit : c.isDigit = true) :
    escapeChar c = c.toString := by
  have bounds : 48 ≤ c.toNat ∧ c.toNat ≤ 57 := Char.isDigit_iff_toNat.mp digit
  have other {d : Char} (none : d.isDigit = false) : c ≠ d := by
    rintro rfl
    rw [digit] at none
    cases none
  have kept : byCodePoint c = false := by
    rw [byCodePoint, if_pos (by omega), decide_eq_false_iff_not]
    omega
  rw [escapeChar, if_neg (other rfl), if_neg (other rfl), if_neg (other rfl), if_neg (other rfl),
    if_neg (other rfl), if_neg (other rfl), kept]
  rfl

/-- A numeral is written between quotes as it is. -/
theorem quoted_of_isNumeral [Escaping] {literal : String} (numeral : IsNumeral literal) :
    quoted literal = "\"" ++ literal ++ "\"" := by
  have digits : ∀ c ∈ literal.toList, c.isDigit = true := List.all_eq_true.mp numeral.2
  have kept : literal.toList.map escapeChar = literal.toList.map Char.toString :=
    List.map_congr_left fun c mem => escapeChar_of_isDigit (digits c mem)
  have joined : String.join (literal.toList.map Char.toString) = literal := by
    rw [← String.toList_inj, String.toList_join, List.flatMap_map]
    simp [Char.toString]
  rw [quoted, kept, joined]

/-- If the literals of integer tokens are numerals, what a fault of a token says is the
    same whatever is escaped beyond ASCII. -/
theorem Fault.message_of_concerns {f : Fault} {t : Token} (concerns : f.Concerns t)
    (numeral : t.kind = .integer → IsNumeral t.literal) (e e' : Escaping) :
    @Fault.message e f = @Fault.message e' f := by
  unfold message
  cases f with
  | unexpected | noOperand => rfl
  | integerTooLarge literal =>
    obtain ⟨number, rfl, -⟩ := concerns
    have plain (e : Escaping) : @quoted e t.literal = "\"" ++ t.literal ++ "\"" :=
      quoted_of_isNumeral (numeral number)
    simp only [plain]

/-- What a diagnostic of a text says is the same whatever is escaped beyond ASCII. -/
theorem Parsed.message_ofString (source : String) {d : Diagnostic}
    (hd : d ∈ (Parsed.ofString source).diagnostics) (e e' : Escaping) :
    @Diagnostic.message e d = @Diagnostic.message e' d := by
  obtain ⟨t, ht, about⟩ := (ParseState.located_finish source).about d hd
  exact Fault.message_of_concerns about.2 (TokenStream.isNumeral_of_mem ht) e e'

/-! ### Diagnostics against the text -/

/-- A diagnostic that shows a line puts a caret under one of its columns. -/
theorem Diagnostic.renderIn_of_line [Escaping] {d : Diagnostic} {source line : String}
    (shown : d.sourceLine? source = some line) :
    d.renderIn source = d.render none ++ "\n  | " ++ line ++
      "\n  | " ++ String.ofList (List.replicate (d.span.column - 1) ' ') ++ "^" := by
  rw [renderIn, shown]
  rfl

/-- Every diagnostic of a text is one of a token.  If this is not the end token, the
    diagnostic shows a line of the text in which the first character of the token
    stands in the column that it names.  If it is, a line is missing just where the
    text is empty or ends with a line feed.  Below a line that is shown, and as far
    indented, there is a caret behind one blank for each column before. -/
theorem Parsed.pointed_ofString [Escaping] (source : String) {d : Diagnostic}
    (hd : d ∈ (Parsed.ofString source).diagnostics) :
    (∃ t ∈ (TokenStream.ofString source).toList, d.span = t.span ∧ d.fault.Concerns t) ∧
    (∀ t ∈ (TokenStream.ofString source).toList, d.span = t.span →
      (t.kind ≠ .endOfInput →
        ∃ line, d.sourceLine? source = some line ∧ t.ShownIn source line) ∧
      (t.kind = .endOfInput →
        (d.sourceLine? source = none ↔ source = "" ∨ source.toList.getLast? = some '\n'))) ∧
    ∀ line, d.sourceLine? source = some line →
      d.renderIn source = d.render none ++ "\n  | " ++ line ++
        "\n  | " ++ String.ofList (List.replicate (d.span.column - 1) ' ') ++ "^" := by
  have located := ParseState.located_finish source
  refine ⟨located.about d hd, ?_, fun line => Diagnostic.renderIn_of_line⟩
  intro t ht same
  obtain ⟨before, inside, behind, stands⟩ := TokenStream.stands_ofString source t ht
  rw [Diagnostic.sourceLine?, same]
  exact ⟨stands.shown, stands.not_shown_iff⟩

/-- The line begins inside a string and ends with a carriage return and a line feed,
    and the character that the caret is under takes two bytes. -/
theorem Parsed.pointed_ofString_lines :
    let _ : Escaping := ⟨fun _ => true⟩
    let source := "let s = \"a\nb\"; let é 1;\r\n"
    let t : Token := ⟨.illegal, "é", ⟨19, 21, 2, 9⟩⟩
    let d : Diagnostic := ⟨.unexpected .identifier .illegal, t.span⟩
    d ∈ (Parsed.ofString source).diagnostics ∧ t ∈ (TokenStream.ofString source).toList ∧
      d.sourceLine? source = some "b\"; let é 1;" ∧ t.ShownIn source "b\"; let é 1;" ∧
      d.renderIn source = d.render none ++ "\n  | " ++ "b\"; let é 1;" ++
        "\n  | " ++ String.ofList (List.replicate 8 ' ') ++ "^" := by
  intro _ source t d
  have all : (Parsed.ofString source).diagnostics = [d] := by cbv
  have recorded : d ∈ (Parsed.ofString source).diagnostics := by
    rw [all]
    exact List.mem_singleton_self d
  have seventh : (TokenStream.ofString source).toList[6]? = some t := by cbv
  have stands : t ∈ (TokenStream.ofString source).toList := List.mem_of_getElem? seventh
  obtain ⟨-, shows, rendered⟩ := Parsed.pointed_ofString source recorded
  have proper : t.kind ≠ .endOfInput := by
    rintro ⟨⟩
  obtain ⟨line, shown, inLine⟩ := (shows t stands rfl).1 proper
  have same : d.sourceLine? source = some "b\"; let é 1;" := by cbv
  rw [same] at shown
  obtain rfl := Option.some.inj shown
  exact ⟨recorded, stands, same, inLine, rendered _ same⟩

end Script
