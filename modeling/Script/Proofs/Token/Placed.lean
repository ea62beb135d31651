/-
  Script/Proofs/Token/Placed.lean
  ===============================
  **Places are counted in the text alone.**

  A scanner carries its line and its column along while it reads blanks, strings
  and operators of two characters.  What it has in the end is what can be counted
  in the text before a token: the line feeds there, and the characters behind the
  last of them.  Once the end token has come, it comes again whenever a token is
  asked for, at the same place.

  Main statements: where the tokens of a text stand (`TokenStream.stands_ofString`);
  what a scanner answers to call after call (`Scanner.call_eq`); and
  `TokenStream.counted_ofString`.
-/
import Mathlib
import Script.Proofs.Source.Lines
import Script.Proofs.Token.Lossless

namespace Script

/-! ### Where tokens stand -/

/-- The line and the column of a span are those of its start, as they are counted
    in the text before it. -/
structure Span.Counted (source : String) (s : Span) : Prop where
  line : s.line = 1 + (slice source 0 s.start).toList.count '\n'
  column : s.column = 1 + (behindFeed (slice source 0 s.start).toList).length

/-- A token covers a part of a text: its span goes from end to end of that part,
    which does not begin with a blank.  The end token covers nothing, behind all of
    the text. -/
structure Token.Stands (source : String) (t : Token) (before inside behind : List Char) :
    Prop where
  text : source.toList = before ++ inside ++ behind
  start : t.span.start = String.utf8Len before
  stop : t.span.stop = String.utf8Len (before ++ inside)
  line : t.span.line = 1 + before.count '\n'
  column : t.span.column = 1 + (behindFeed before).length
  solid : t.kind ≠ .endOfInput → ∃ c cs, inside = c :: cs ∧ isBlank c = false
  ended : t.kind = .endOfInput → inside = [] ∧ behind = []

theorem Token.Stands.counted {source : String} {t : Token} {before inside behind : List Char}
    (stands : t.Stands source before inside behind) : t.span.Counted source := by
  have text : slice source 0 t.span.start = String.ofList before :=
    slice_before_cut stands.text stands.start
  constructor
  · rw [text, String.toList_ofList]
    exact stands.line
  · rw [text, String.toList_ofList]
    exact stands.column

/-- What a lexeme covers begins with the first character of the text. -/
theorem Lexeme.exists_text_cons (c : Char) (cs : List Char) :
    ∃ more, (Lexeme.ofChars c cs).text = c :: more := by
  obtain ⟨d, more, text⟩ := List.exists_cons_of_ne_nil (Lexeme.text_ne_nil c cs)
  have whole := Lexeme.text_append_rest c cs
  rw [text, List.cons_append] at whole
  obtain ⟨rfl, -⟩ := List.cons.inj whole
  exact ⟨more, text⟩

namespace Scanner

variable {source : String} {read : List Char} {s s' : Scanner} {t : Token}

/-- A scanner is at the place that is counted in what it has read. -/
theorem At.position_eq (reads : s.At source read) :
    s.position = ⟨String.utf8Len read, 1 + read.count '\n', 1 + (behindFeed read).length⟩ := by
  rw [reads.position, Position.afterAll_start]

theorem At.stands_next (reads : s.At source read) (h : s.next? = some (t, s')) :
    ∃ before inside behind, t.Stands source before inside behind := by
  obtain ⟨blanks, c, cs, -, -, solid, front, rfl, rfl⟩ := reads.cut h
  have position := front.position_eq
  have reads' := front.lexeme
  have proper := (Lexeme.ofChars_sound c cs).proper
  obtain ⟨more, covered⟩ := Lexeme.exists_text_cons c cs
  refine ⟨read ++ blanks, (Lexeme.ofChars c cs).text, (Lexeme.ofChars c cs).rest, ?_⟩
  constructor
  · exact reads'.text
  · exact congrArg Position.offset position
  · exact congrArg Position.offset reads'.position_eq
  · exact congrArg Position.line position
  · exact congrArg Position.column position
  · intro _
    exact ⟨c, more, covered, solid⟩
  · intro ended
    exact absurd ended proper

theorem At.stands_end (reads : s.At source read) (h : s.next? = none) :
    ∃ before inside behind, (Token.endOfInput s.endSpan).Stands source before inside behind := by
  have position := reads.skipBlanks.position_eq
  have text := reads.skipBlanks.text
  rw [rest_skipBlanks_of_end h] at text
  refine ⟨read ++ s.rest.takeWhile isBlank, [], [], ?_⟩
  constructor
  · rw [text, List.append_nil, List.append_nil]
  · exact congrArg Position.offset position
  · rw [List.append_nil]
    exact congrArg Position.offset position
  · exact congrArg Position.line position
  · exact congrArg Position.column position
  · intro other
    exact absurd rfl other
  · intro _
    exact ⟨rfl, rfl⟩

/-- The tokens still to come stand in the text, if those that have come do. -/
theorem At.stands_drainOnto (reads : s.At source read) {done : List Token}
    (come : ∀ t ∈ done, ∃ before inside behind, t.Stands source before inside behind) :
    ∀ t ∈ (s.drainOnto done).toList,
      ∃ before inside behind, t.Stands source before inside behind := by
  fun_induction Scanner.drainOnto done s generalizing read with
  | case1 done s h =>
    intro t ht
    rcases List.mem_append.mp ht with ht | ht
    · exact come t (List.mem_reverse.mp ht)
    · rw [List.mem_singleton.mp ht]
      exact reads.stands_end h
  | case2 done s t s' h ih =>
    obtain ⟨blanks, text, -, -, -, -, -, reads'⟩ := reads.next h
    exact ih reads' (List.forall_mem_cons.mpr ⟨reads.stands_next h, come⟩)

/-! ### Call after call -/

/-- What a scanner answers to a call for a token, after so many calls. -/
def call (s : Scanner) : Nat → Token
  | 0 => s.next.1
  | n + 1 => s.next.2.call n

theorem skipBlanks_of_nil (none : s.rest = []) : s.skipBlanks = s := by
  obtain ⟨p, rest⟩ := s
  cases none
  rfl

/-- Behind the last token, only the end token is answered. -/
theorem call_of_end (h : s.next? = none) (n : Nat) : s.call n = .endOfInput s.endSpan := by
  induction n generalizing s with
  | zero => simp [call, next, h]
  | succ n ih =>
    have none := rest_skipBlanks_of_end h
    have again : s.skipBlanks.skipBlanks = s.skipBlanks := skipBlanks_of_nil none
    have next' : s.skipBlanks.next? = Option.none := by
      simp only [next?, again, none]
    have same : s.skipBlanks.endSpan = s.endSpan := by
      simp only [endSpan, again]
    simp only [call, next, h, Option.getD_none]
    rw [ih next', same]

theorem stop_drainOnto (s : Scanner) (done : List Token) :
    (s.drainOnto done).stop = (s.drainOnto []).stop := by
  induction size : s.rest.length using Nat.strongRecOn generalizing s done with
  | ind n ih =>
    subst size
    cases h : s.next? with
    | none => rw [drainOnto_of_end h, drainOnto_of_end h]
    | some r =>
      obtain ⟨t, s'⟩ := r
      have shorter := rest_length_lt h
      rw [drainOnto_of_next? h, drainOnto_of_next? h, ih _ shorter s' _ rfl,
        ih _ shorter s' [t] rfl]

theorem toList_of_next? (h : s.next? = some (t, s')) :
    (s.drainOnto []).toList = t :: (s'.drainOnto []).toList := by
  have tokens : (s.drainOnto []).tokens = t :: (s'.drainOnto []).tokens := tokens_of_next? h
  have stop : (s.drainOnto []).stop = (s'.drainOnto []).stop := by
    rw [drainOnto_of_next? h, stop_drainOnto]
  rw [TokenStream.toList, TokenStream.toList, tokens, stop, List.cons_append]

/-- The tokens of a text are what a scanner answers in turn, and behind the last of
    them comes the end token, as often as one asks. -/
theorem call_eq (s : Scanner) (n : Nat) :
    s.call n = ((s.drainOnto []).toList[n]?).getD (.endOfInput (s.drainOnto []).stop) := by
  induction n generalizing s with
  | zero =>
    cases h : s.next? with
    | none =>
      rw [call_of_end h, drainOnto_of_end h]
      rfl
    | some r =>
      obtain ⟨t, s'⟩ := r
      rw [toList_of_next? h]
      simp [call, next, h]
  | succ n ih =>
    cases h : s.next? with
    | none =>
      rw [call_of_end h, drainOnto_of_end h]
      cases n <;> rfl
    | some r =>
      obtain ⟨t, s'⟩ := r
      have stop : (s.drainOnto []).stop = (s'.drainOnto []).stop := by
        rw [drainOnto_of_next? h, stop_drainOnto]
      rw [toList_of_next? h, stop, List.getElem?_cons_succ]
      simp only [call, next, h, Option.getD_some, ih]

end Scanner

namespace TokenStream

theorem stands_ofString (source : String) :
    ∀ t ∈ (ofString source).toList,
      ∃ before inside behind, t.Stands source before inside behind :=
  (Scanner.at_ofString source).stands_drainOnto (List.forall_mem_nil _)

/-- No token before the end token is one. -/
theorem proper_ofString (source : String) : ∀ t ∈ (ofString source).tokens, t.kind ≠ .endOfInput :=
  fun t ht => ((Scanner.at_ofString source).laid.covers t ht).1.proper

/-- The tokens of a text, the end token last, stand where counting the line feeds
    and the characters in the text before them says.  Asked for one token after the
    other, a scanner answers with these; and what it answers once it has answered
    with the end token is that token again, wherever the first one was. -/
theorem counted_ofString (source : String) :
    (∀ t ∈ (ofString source).toList, t.span.Counted source) ∧
    (∀ (n : Nat) (inside : n < (ofString source).toList.length),
      (Scanner.ofString source).call n = (ofString source).toList[n]) ∧
    ∀ m n, ((Scanner.ofString source).call m).kind = .endOfInput →
      (Scanner.ofString source).call (m + n) = (Scanner.ofString source).call m := by
  have calls (n : Nat) : (Scanner.ofString source).call n =
      ((ofString source).toList[n]?).getD (.endOfInput (ofString source).stop) :=
    (Scanner.ofString source).call_eq n
  refine ⟨?_, ?_, ?_⟩
  · intro t ht
    obtain ⟨before, inside, behind, stands⟩ := stands_ofString source t ht
    exact stands.counted
  · intro n inside
    rw [calls, List.getElem?_eq_getElem inside, Option.getD_some]
  · -- the end token comes behind all others, and nothing else behind these
    have beyond (k : Nat) (out : (ofString source).tokens.length ≤ k) :
        (Scanner.ofString source).call k = .endOfInput (ofString source).stop := by
      rw [calls, toList, List.getElem?_append_right out]
      cases k - (ofString source).tokens.length <;> rfl
    intro m n ended
    have out : (ofString source).tokens.length ≤ m := by
      by_contra inside
      have there : m < (ofString source).tokens.length := Nat.lt_of_not_le inside
      rw [calls, toList, List.getElem?_append_left there, List.getElem?_eq_getElem there] at ended
      exact proper_ofString source _ (List.getElem_mem there) ended
    rw [beyond m out, beyond (m + n) (Nat.le_add_right_of_le out)]

/-- A string over two lines, and a line that begins with blanks; the end token is
    answered to every call from the fourth on. -/
theorem counted_ofString_lines :
    let source := "\"a\nb\" ==\n  x"
    let name : Token := ⟨.identifier, "x", ⟨11, 12, 3, 3⟩⟩
    let stop : Token := .endOfInput ⟨12, 12, 3, 4⟩
    name ∈ (ofString source).toList ∧ name.span.Counted source ∧ stop.span.Counted source ∧
      (Scanner.ofString source).call 2 = name ∧ (Scanner.ofString source).call 3 = stop ∧
      (Scanner.ofString source).call (3 + 4) = stop := by
  intro source name stop
  have read : (ofString source).toList =
      [⟨.string, "a\nb", ⟨0, 5, 1, 1⟩⟩, ⟨.equal, "==", ⟨6, 8, 2, 4⟩⟩, name, stop] := by cbv
  have named : name ∈ (ofString source).toList := by simp [read]
  have ended : stop ∈ (ofString source).toList := by simp [read]
  obtain ⟨counted, calls, again⟩ := counted_ofString source
  have third : (Scanner.ofString source).call 2 = name := by
    rw [calls 2 (by simp [read])]
    simp [read]
  have fourth : (Scanner.ofString source).call 3 = stop := by
    rw [calls 3 (by simp [read])]
    simp [read]
  refine ⟨named, counted name named, counted stop ended, third, fourth, ?_⟩
  rw [again 3 4 (by rw [fourth]; rfl), fourth]

end TokenStream

end Script
