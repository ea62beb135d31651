/-
  Script/Proofs/Token/Respaced.lean
  =================================
  **Blanks between tokens mean nothing.**

  A token is cut off by what it consists of and by the first character behind it,
  and a blank there ends it as well as what follows does.  So blanks may be put
  before any token of a text, also where none stood.  Only a string without a
  closing quote takes up blanks behind it.

  Main statements: `Lexeme.recut`, which cuts the same lexeme off another text;
  `Scanner.At.contents_respaced`; and `TokenStream.contents_insertAt`.
-/
import Script.Proofs.Token.Placed

namespace Script

/-! ### What tokens say -/

/-- What a token says, wherever it stands. -/
def Token.content (t : Token) : TokenKind × String := (t.kind, t.literal)

def Lexeme.content (l : Lexeme) : TokenKind × String := (l.kind, String.ofList l.literal)

/-- What the tokens of a text say. -/
def contents (cs : List Char) : List (TokenKind × String) :=
  (⟨.start, cs⟩ : Scanner).tokens.map Token.content

/-- What a scanner reads does not depend on where it is. -/
theorem Scanner.map_content_tokens (s : Scanner) :
    s.tokens.map Token.content = contents s.rest := by
  induction size : s.rest.length using Nat.strongRecOn generalizing s with
  | ind n ih =>
    obtain ⟨p, cs⟩ := s
    subst size
    rcases cs with _ | ⟨c, cs⟩
    · rw [contents, tokens_nil, tokens_nil]
    · by_cases blank : isBlank c = true
      · have shorter : cs.length < (c :: cs).length := Nat.lt_succ_self _
        rw [contents, tokens_blank blank, tokens_blank blank, ih _ shorter ⟨_, cs⟩ rfl,
          ih _ shorter ⟨_, cs⟩ rfl]
      · have solid := Bool.eq_false_iff.mpr blank
        have shorter := Nat.lt_succ_of_le (Lexeme.rest_length_le c cs)
        obtain ⟨t, q, kind, literal, tokens⟩ := tokens_lexeme solid p cs
        obtain ⟨u, r, kind', literal', tokens'⟩ := tokens_lexeme solid .start cs
        rw [contents, tokens, tokens', List.map_cons, List.map_cons, Token.content, Token.content,
          kind, literal, kind', literal', ih _ shorter ⟨q, _⟩ rfl, ih _ shorter ⟨r, _⟩ rfl]

theorem contents_blanks {w : List Char} (blank : ∀ c ∈ w, isBlank c = true) (cs : List Char) :
    contents (w ++ cs) = contents cs := by
  induction w with
  | nil => rfl
  | cons c w ih =>
    obtain ⟨first, others⟩ := List.forall_mem_cons.mp blank
    rw [List.cons_append, contents, Scanner.tokens_blank first, Scanner.map_content_tokens,
      ih others]

theorem contents_lexeme {c : Char} (solid : isBlank c = false) (cs : List Char) :
    contents (c :: cs) = (Lexeme.ofChars c cs).content :: contents (Lexeme.ofChars c cs).rest := by
  obtain ⟨t, p, kind, literal, tokens⟩ := Scanner.tokens_lexeme solid .start cs
  rw [contents, tokens, List.map_cons, Scanner.map_content_tokens, Token.content, kind, literal]
  rfl

/-! ### Lexemes before other texts -/

namespace Lexeme

/-- A string that the text ends before its closing quote. -/
def Unclosed (l : Lexeme) : Prop := l.kind = .string ∧ l.text = '"' :: l.literal

/-- What may stand behind a lexeme: a text that begins with a blank or as the text
    behind it does.  Only a string that is not closed would take up any of it. -/
structure Admits (l : Lexeme) (rest : List Char) : Prop where
  first : ∀ d, rest.head? = some d → isBlank d = true ∨ l.rest.head? = some d
  closed : ¬l.Unclosed

theorem admits_blanks {l : Lexeme} {before behind w : List Char} (rest : l.rest = before ++ behind)
    (blank : ∀ c ∈ w, isBlank c = true) (closed : ¬l.Unclosed) :
    l.Admits (before ++ w ++ behind) := by
  refine ⟨fun d first => ?_, closed⟩
  rcases before with _ | ⟨c, before⟩
  · rcases w with _ | ⟨c, w⟩
    · right
      rwa [rest]
    · left
      obtain rfl := Option.some.inj first
      exact blank c List.mem_cons_self
  · right
    rwa [rest]

section Recut

variable {c : Char} {cs rest : List Char}

theorem recut_single {kind : TokenKind} (cut : ∀ cs, ofChars c cs = .plain kind [c] cs) :
    ofChars c ((ofChars c cs).text.tail ++ rest) = { ofChars c cs with rest := rest } := by
  rw [cut cs, cut]
  rfl

variable (admits : (ofChars c cs).Admits rest)

include admits

theorem recut_run {p : Char → Bool} (kind : List Char → TokenKind)
    (apart : ∀ d, isBlank d = true → p d = false)
    (cut : ∀ cs, ofChars c cs =
      .plain (kind (c :: cs.takeWhile p)) (c :: cs.takeWhile p) (cs.dropWhile p)) :
    ofChars c ((ofChars c cs).text.tail ++ rest) = { ofChars c cs with rest := rest } := by
  have inside : ∀ d ∈ cs.takeWhile p, p d = true := fun d => List.mem_takeWhile_imp
  have stop : ∀ d ds, rest = d :: ds → p d = false := by
    rintro d ds rfl
    rcases admits.first d rfl with blank | same
    · exact apart d blank
    · rw [cut] at same
      exact head?_dropWhile same
  obtain ⟨taken, dropped⟩ := takeWhile_dropWhile_append inside stop
  have tail : (ofChars c cs).text.tail = cs.takeWhile p := by
    rw [cut]
    rfl
  rw [tail, cut, cut, taken, dropped]
  rfl

theorem recut_maybeEqual {alone followed : TokenKind}
    (cut : ∀ cs, ofChars c cs = .maybeEqual c alone followed cs) :
    ofChars c ((ofChars c cs).text.tail ++ rest) = { ofChars c cs with rest := rest } := by
  by_cases more : cs.head? = some '='
  · obtain ⟨ds, rfl⟩ := List.head?_eq_some_iff.mp more
    rw [cut, cut]
    rfl
  · have other : rest.head? ≠ some '=' := by
      intro equal
      rcases admits.first '=' equal with blank | same
      · cases blank
      · rw [cut, maybeEqual_alone more] at same
        exact more same
    have tail : (ofChars c cs).text.tail = [] := by
      rw [cut, maybeEqual_alone more]
      rfl
    rw [tail, List.nil_append, cut, cut, maybeEqual_alone more, maybeEqual_alone other]
    rfl

theorem recut_quoted (quote : c = '"') :
    ofChars c ((ofChars c cs).text.tail ++ rest) = { ofChars c cs with rest := rest } := by
  subst quote
  have cut (cs : List Char) : ofChars '"' cs = .quoted '"' cs := rfl
  have inside : ∀ d ∈ cs.takeWhile (· != '"'), (d != '"') = true := fun d => List.mem_takeWhile_imp
  cases dropped : cs.dropWhile (· != '"') with
  | nil =>
    have open' : ofChars '"' cs =
        ⟨.string, cs.takeWhile (· != '"'), '"' :: cs.takeWhile (· != '"'), []⟩ := by
      rw [cut, quoted, dropped]
    rw [open'] at admits
    exact absurd ⟨rfl, rfl⟩ admits.closed
  | cons close behind =>
    have first : (cs.dropWhile (· != '"')).head? = some close := by rw [dropped, List.head?_cons]
    have quote : (close != '"') = false := head?_dropWhile (p := (· != '"')) first
    have closed : ofChars '"' cs = ⟨.string, cs.takeWhile (· != '"'),
        '"' :: (cs.takeWhile (· != '"') ++ [close]), behind⟩ := by
      rw [cut, quoted, dropped]
    have stop : ∀ d ds, close :: rest = d :: ds → (d != '"') = false := by
      rintro _ _ ⟨⟩
      exact quote
    obtain ⟨taken, dropped'⟩ := takeWhile_dropWhile_append inside stop
    rw [closed, List.tail_cons, List.append_assoc, List.singleton_append, cut, quoted, taken,
      dropped']

/-- The same lexeme is cut off where other text stands behind it. -/
theorem recut :
    ofChars c ((ofChars c cs).text.tail ++ rest) = { ofChars c cs with rest := rest } := by
  cases single : symbol? c with
  | some kind =>
    have cut (cs : List Char) : ofChars c cs = .plain kind [c] cs := by simp [ofChars, single]
    exact recut_single cut
  | none =>
    by_cases equal : c = '='
    · have cut (cs : List Char) : ofChars c cs = .maybeEqual c .assign .equal cs := by
        simp [ofChars, symbol?, equal]
      exact recut_maybeEqual admits cut
    by_cases bang : c = '!'
    · have cut (cs : List Char) : ofChars c cs = .maybeEqual c .bang .notEqual cs := by
        simp [ofChars, symbol?, bang]
      exact recut_maybeEqual admits cut
    by_cases quote : c = '"'
    · exact recut_quoted admits quote
    by_cases digit : c.isDigit = true
    · exact recut_run admits (fun _ => .integer) (fun _ => isDigit_of_blank)
        (ofChars_digit digit)
    by_cases letter : isLetter c = true
    · exact recut_run admits (fun word => .ofWord (String.ofList word))
        (fun _ => isLetter_of_blank) (ofChars_letter letter)
    · have cut (cs : List Char) : ofChars c cs = .plain .illegal [c] cs := by
        simp [ofChars, single, equal, bang, quote, digit, letter]
      exact recut_single cut

end Recut

end Lexeme

theorem contents_recut {c : Char} {cs rest : List Char} (solid : isBlank c = false)
    (admits : (Lexeme.ofChars c cs).Admits rest) :
    contents ((Lexeme.ofChars c cs).text ++ rest) =
      (Lexeme.ofChars c cs).content :: contents rest := by
  obtain ⟨more, text⟩ := Lexeme.exists_text_cons c cs
  have same := Lexeme.recut admits
  rw [text, List.tail_cons] at same
  rw [text, List.cons_append, contents_lexeme solid, same]
  rfl

/-! ### Blanks before a token -/

/-- A string that is not closed where its token ends. -/
def Token.Unclosed (source : String) (t : Token) : Prop :=
  t.kind = .string ∧ slice source t.span.start t.span.stop = "\"" ++ t.literal

/-- A text, with another one put in at a byte offset. -/
def insertAt (source : String) (i : Nat) (w : String) : String :=
  slice source 0 i ++ w ++ slice source i source.utf8ByteSize

theorem insertAt_of_toList {source w : String} {before behind : List Char}
    (h : source.toList = before ++ behind) :
    (insertAt source (String.utf8Len before) w).toList = before ++ w.toList ++ behind := by
  rw [insertAt, slice_before h, slice_behind h]
  simp

namespace Scanner

variable {source : String} {read : List Char} {s s' : Scanner} {t u : Token}

/-- A string behind which a token comes is closed; only one at the end of the text
    need not be. -/
theorem At.closed_of_mem (reads : s.At source read) (h : s.next? = some (u, s'))
    (ht : t ∈ (s'.drainOnto []).toList)
    (closed : t.kind = .endOfInput → ∀ v, s.tokens.getLast? = some v → ¬v.Unclosed source) :
    ¬u.Unclosed source := by
  intro unclosed
  obtain ⟨_, _, -, -, -, -, ends, -⟩ := reads.next h
  obtain ⟨p, rest⟩ := s'
  obtain rfl : rest = [] := ends unclosed.1 unclosed.2
  have last : s.tokens = [u] := by rw [tokens_of_next? h, tokens_nil]
  have none : (⟨p, []⟩ : Scanner).next? = none := rfl
  rw [drainOnto_of_end none] at ht
  obtain rfl := List.mem_singleton.mp ht
  exact closed rfl u (by rw [last]; rfl) unclosed

/-- A lexeme that is a string without an end makes a token that is one. -/
theorem At.unclosed {c : Char} {cs : List Char} {span : Span}
    (front : (⟨Position.start.afterAll read, c :: cs⟩ : Scanner).At source read)
    (start : span.start = String.utf8Len read)
    (stop : span.stop = String.utf8Len (read ++ (Lexeme.ofChars c cs).text))
    (unclosed : (Lexeme.ofChars c cs).Unclosed) :
    Token.Unclosed source
      ⟨(Lexeme.ofChars c cs).kind, String.ofList (Lexeme.ofChars c cs).literal, span⟩ := by
  refine ⟨unclosed.1, ?_⟩
  rw [slice_cut front.lexeme.text start stop, unclosed.2]
  simp

/-- Wherever one of the tokens to come begins, blanks may be put in. -/
theorem At.contents_respaced (reads : s.At source read) (ht : t ∈ (s.drainOnto []).toList)
    (closed : t.kind = .endOfInput → ∀ u, s.tokens.getLast? = some u → ¬u.Unclosed source) :
    ∃ before behind, s.rest = before ++ behind ∧
      t.span.start = String.utf8Len (read ++ before) ∧
      ∀ w, (∀ c ∈ w, isBlank c = true) → contents (before ++ w ++ behind) = contents s.rest := by
  induction size : s.rest.length using Nat.strongRecOn generalizing s read with
  | ind n ih =>
    subst size
    cases h : s.next? with
    | none =>
      obtain ⟨blank, start, -⟩ := reads.ended h
      rw [drainOnto_of_end h] at ht
      obtain rfl := List.mem_singleton.mp ht
      refine ⟨s.rest, [], (List.append_nil _).symm, ?_, ?_⟩
      · rw [← reads.text, String.utf8Len_toList]
        exact start
      · intro w more
        rw [List.append_assoc, contents_blanks blank, contents_blanks more,
          ← contents_blanks blank, List.append_nil]
    | some r =>
      obtain ⟨u, s'⟩ := r
      obtain ⟨blanks, c, cs, rest, blank, solid, front, token, scanned⟩ := reads.cut h
      rw [toList_of_next? h] at ht
      rcases List.mem_cons.mp ht with rfl | ht
      · -- the blanks come behind those that are skipped here
        refine ⟨blanks, c :: cs, rest, ?_, ?_⟩
        · rw [token]
          exact Position.offset_afterAll_start _
        · intro w more
          rw [List.append_assoc, contents_blanks blank, contents_blanks more, rest,
            contents_blanks blank]
      · -- the blanks come behind the lexeme, which is cut off all the same
        have start := Position.offset_afterAll_start (read ++ blanks)
        have stop := Position.offset_afterAll_start (read ++ blanks ++ (Lexeme.ofChars c cs).text)
        rw [Position.afterAll_append] at stop
        have whole : ¬(Lexeme.ofChars c cs).Unclosed := by
          intro unclosed
          refine reads.closed_of_mem h ht closed ?_
          rw [token]
          exact front.unclosed start stop unclosed
        have closed' : t.kind = .endOfInput → ∀ v, s'.tokens.getLast? = some v →
            ¬v.Unclosed source := by
          intro ended v last
          exact closed ended v (by rw [tokens_of_next? h, List.getLast?_cons, last]; rfl)
        have reads' := front.lexeme
        rw [← scanned] at reads'
        obtain ⟨before, behind, cut, begins, same⟩ := ih _ (rest_length_lt h) reads' ht closed' rfl
        have here : contents s.rest = (Lexeme.ofChars c cs).content :: contents s'.rest := by
          rw [rest, contents_blanks blank, contents_lexeme solid, scanned]
        have cut' : (Lexeme.ofChars c cs).rest = before ++ behind := by
          rw [← cut, scanned]
        refine ⟨blanks ++ ((Lexeme.ofChars c cs).text ++ before), behind, ?_, ?_, ?_⟩
        · rw [rest, ← Lexeme.text_append_rest, cut', List.append_assoc, List.append_assoc]
        · rw [begins, ← List.append_assoc, ← List.append_assoc]
        · intro w more
          have admits := Lexeme.admits_blanks cut' more whole
          rw [List.append_assoc, List.append_assoc, List.append_assoc, contents_blanks blank,
            ← List.append_assoc before, contents_recut solid admits, same w more, here]

end Scanner

/-! ### Whole texts -/

namespace TokenStream

/-- What the tokens of a text say, that of the end token last. -/
theorem map_content_toList (source : String) :
    (ofString source).toList.map Token.content =
      contents source.toList ++ [(.endOfInput, "")] := by
  rw [toList, List.map_append]
  rfl

/-- Blanks before a token of a text, or behind all of them, change no token. -/
theorem contents_insertAt (source : String) {t : Token} (ht : t ∈ (ofString source).toList)
    (closed : t.kind = .endOfInput →
      ∀ u, (ofString source).tokens.getLast? = some u → ¬u.Unclosed source)
    {w : String} (blank : ∀ c ∈ w.toList, isBlank c = true) :
    contents (insertAt source t.span.start w).toList = contents source.toList := by
  obtain ⟨before, behind, text, start, same⟩ :=
    (Scanner.at_ofString source).contents_respaced ht closed
  rw [start, List.nil_append, insertAt_of_toList text]
  exact same _ blank

end TokenStream

end Script
