/-
  Script/Proofs/Token/Lossless.lean
  =================================
  **Tokens and the blanks between them are the text.**

  Spans are byte offsets.  They cut the text into the tokens, one behind the
  other, and gaps of blanks; nothing is lost, and no number, word or operator
  could have been longer.

  Main statement: `TokenStream.lossless_ofString`.
-/
import Mathlib.Data.String.Basic
import Script.Proofs.Token.Lexeme

namespace Script

/-! ### Slices -/

/-- The text between two byte offsets. -/
def slice (source : String) (start stop : Nat) : String :=
  String.Pos.Raw.extract source ⟨start⟩ ⟨stop⟩

theorem slice_of_toList {source : String} {before inside behind : List Char}
    (h : source.toList = before ++ inside ++ behind) :
    slice source (String.utf8Len before) (String.utf8Len (before ++ inside)) =
      String.ofList inside := by
  rw [slice, ← String.ofList_toList (s := source), h, String.utf8Len_append]
  exact String.extract_of_valid before inside behind

theorem slice_before {source : String} {before behind : List Char}
    (h : source.toList = before ++ behind) :
    slice source 0 (String.utf8Len before) = String.ofList before :=
  @slice_of_toList source [] before behind h

theorem slice_behind {source : String} {before behind : List Char}
    (h : source.toList = before ++ behind) :
    slice source (String.utf8Len before) source.utf8ByteSize = String.ofList behind := by
  rw [← String.utf8Len_toList, h]
  exact @slice_of_toList source before behind [] (by rw [h, List.append_nil])

/-- The text at a span is a run of a class of characters, with none of them next
    to it on either side. -/
structure IsRun (p : Char → Bool) (source : String) (s : Span) : Prop where
  inside : ∀ c ∈ (slice source s.start s.stop).toList, p c = true
  before : ∀ c, (slice source 0 s.start).toList.getLast? = some c → p c = false
  behind : ∀ c, (slice source s.stop source.utf8ByteSize).toList.head? = some c → p c = false

/-- The text that a token covers is not empty, and is as its kind and its literal
    say.  Strings stand between quotes, of which the end of the text may spare
    the second. -/
structure Token.Covers (source : String) (t : Token) : Prop where
  proper : t.kind ≠ .endOfInput
  solid : t.span.start < t.span.stop ∧ slice source t.span.start t.span.stop ≠ ""
  bounded : t.span.stop ≤ source.utf8ByteSize
  literal : t.kind ≠ .string → t.literal = slice source t.span.start t.span.stop
  string : t.kind = .string → (∀ c ∈ t.literal.toList, c ≠ '"') ∧
    (slice source t.span.start t.span.stop = "\"" ++ t.literal ++ "\"" ∨
      slice source t.span.start t.span.stop = "\"" ++ t.literal ∧
        t.span.stop = source.utf8ByteSize)
  integer : t.kind = .integer → IsRun Char.isDigit source t.span
  word : t.kind.isWord = true → IsRun isLetter source t.span ∧ t.kind = .ofWord t.literal ∧
    (t.kind = .identifier ↔ TokenKind.ofKeyword? t.literal = none)
  alone : t.kind = .assign ∨ t.kind = .bang →
    (slice source t.span.stop source.utf8ByteSize).toList.head? ≠ some '='

/-! ### Single tokens -/

section Cut

variable {source : String} {read text rest : List Char} {span : Span}
  (cut : source.toList = read ++ text ++ rest)
  (start : span.start = String.utf8Len read) (stop : span.stop = String.utf8Len (read ++ text))

include cut start stop

theorem slice_cut : slice source span.start span.stop = String.ofList text := by
  rw [start, stop]
  exact slice_of_toList cut

omit stop in
theorem slice_before_cut : slice source 0 span.start = String.ofList read := by
  rw [start]
  exact slice_before (cut.trans (List.append_assoc ..))

omit start in
theorem slice_behind_cut : slice source span.stop source.utf8ByteSize = String.ofList rest := by
  rw [stop]
  exact slice_behind cut

theorem isRun_of_apart {p : Char → Bool} (solid : text ≠ []) (inside : ∀ c ∈ text, p c = true)
    (left : Apart p read (text ++ rest)) (right : Apart p text rest) : IsRun p source span where
  inside := by
    rw [slice_cut cut start stop, String.toList_ofList]
    exact inside
  before c last := by
    rw [slice_before_cut cut start, String.toList_ofList] at last
    obtain ⟨d, ds, rfl⟩ := List.exists_cons_of_ne_nil solid
    refine Bool.eq_false_iff.mpr fun holds => ?_
    exact absurd (inside d (by simp)) (by simp [left c d last rfl holds])
  behind c first := by
    rw [slice_behind_cut cut stop, String.toList_ofList] at first
    exact right _ c (List.getLast?_eq_some_getLast solid) first
      (inside _ (List.getLast_mem solid))

end Cut

/-- A lexeme that is cut off where no run goes on makes a token that covers its
    text. -/
theorem Lexeme.Sound.covers {source : String} {read : List Char} {l : Lexeme} (sound : l.Sound)
    (solid : l.text ≠ [])
    (cut : source.toList = read ++ l.text ++ l.rest)
    (digits : Apart Char.isDigit read (l.text ++ l.rest))
    (letters : Apart isLetter read (l.text ++ l.rest)) {span : Span}
    (start : span.start = String.utf8Len read)
    (stop : span.stop = String.utf8Len (read ++ l.text)) :
    (⟨l.kind, String.ofList l.literal, span⟩ : Token).Covers source where
  proper := sound.proper
  solid := by
    have size : String.utf8Len l.text ≠ 0 := fun none => solid (String.utf8Len_eq_zero.mp none)
    rw [slice_cut cut start stop, start, stop, String.utf8Len_append]
    exact ⟨by omega, by simpa using solid⟩
  bounded := by
    rw [stop, ← String.utf8Len_toList, cut, String.utf8Len_append _ l.rest]
    exact Nat.le_add_right _ _
  literal plain := by
    rw [slice_cut cut start stop]
    exact congrArg String.ofList (sound.literal plain)
  string quoted := by
    obtain ⟨inside, closed | ⟨unclosed, ends⟩⟩ := sound.string quoted
    · refine ⟨by simpa using inside, .inl ?_⟩
      rw [slice_cut cut start stop, closed]
      simp [← String.toList_inj]
    · refine ⟨by simpa using inside, .inr ⟨?_, ?_⟩⟩
      · rw [slice_cut cut start stop, unclosed]
        simp
      · rw [stop, ← String.utf8Len_toList, cut, ends, List.append_nil]
  integer number :=
    isRun_of_apart cut start stop solid (sound.integer number) digits sound.digits
  word word := by
    obtain ⟨inside, kind⟩ := sound.word word
    refine ⟨isRun_of_apart cut start stop solid inside letters sound.letters, kind, ?_⟩
    rw [kind]
    exact TokenKind.ofWord_eq_identifier_iff _
  alone single := by
    rw [slice_behind_cut cut stop, String.toList_ofList]
    exact sound.alone single

/-! ### Texts cut into tokens -/

/-- Behind what has been read, the text is these tokens in order, with blanks
    around them, and nothing else. -/
inductive Laid (source : String) : List Char → List Token → Prop
  | done {read rest : List Char} (text : source.toList = read ++ rest)
      (blank : ∀ c ∈ rest, isBlank c = true) : Laid source read []
  | cut {read blanks text : List Char} {t : Token} {ts : List Token}
      (blank : ∀ c ∈ blanks, isBlank c = true)
      (start : t.span.start = String.utf8Len (read ++ blanks))
      (stop : t.span.stop = String.utf8Len (read ++ blanks ++ text))
      (covers : t.Covers source)
      (closed : t.kind = .string → slice source t.span.start t.span.stop = "\"" ++ t.literal →
        ts = [])
      (more : Laid source (read ++ blanks ++ text) ts) : Laid source read (t :: ts)

/-! ### What a scanner reads -/

theorem Position.offset_afterAll (p : Position) (cs : List Char) :
    (p.afterAll cs).offset = p.offset + String.utf8Len cs := by
  induction cs generalizing p with
  | nil => rfl
  | cons c cs ih =>
    have first : (p.after c).offset = p.offset + c.utf8Size := by
      unfold after
      split <;> rfl
    rw [afterAll_cons, ih, first, String.utf8Len_cons, Nat.add_assoc, Nat.add_comm c.utf8Size]

theorem Position.offset_afterAll_start (cs : List Char) :
    (Position.start.afterAll cs).offset = String.utf8Len cs :=
  (offset_afterAll start cs).trans (Nat.zero_add _)

/-- A scanner that has read so much of a text, between tokens. -/
structure Scanner.At (source : String) (read : List Char) (s : Scanner) : Prop where
  text : source.toList = read ++ s.rest
  position : s.position = Position.start.afterAll read
  digits : Apart Char.isDigit read s.rest
  letters : Apart isLetter read s.rest

namespace Scanner

variable {source : String} {read : List Char} {s s' : Scanner} {t : Token}

theorem at_ofString (source : String) : At source [] (ofString source) where
  text := rfl
  position := rfl
  digits := .of_last nofun
  letters := .of_last nofun

theorem apart_skipBlanks {p : Char → Bool} (solid : ∀ c, isBlank c = true → p c = false)
    (apart : Apart p read s.rest) :
    Apart p (read ++ s.rest.takeWhile isBlank) (s.rest.dropWhile isBlank) := by
  by_cases none : s.rest.takeWhile isBlank = []
  · have all : s.rest.dropWhile isBlank = s.rest := by
      have split := List.takeWhile_append_dropWhile (p := isBlank) (l := s.rest)
      rwa [none] at split
    rwa [none, List.append_nil, all]
  · exact (Apart.of_last fun c last =>
      solid c (List.mem_takeWhile_imp (List.mem_of_getLast? last))).append read none

theorem At.skipBlanks (reads : s.At source read) :
    s.skipBlanks.At source (read ++ s.rest.takeWhile isBlank) where
  text := by
    rw [reads.text, List.append_assoc]
    exact congrArg (read ++ ·) List.takeWhile_append_dropWhile.symm
  position := by
    rw [Position.afterAll_append, ← reads.position]
    rfl
  digits := apart_skipBlanks (fun _ => isDigit_of_blank) reads.digits
  letters := apart_skipBlanks (fun _ => isLetter_of_blank) reads.letters

/-- The next token is cut off behind some blanks, and the scanner is then behind it. -/
theorem At.cut (reads : s.At source read) (h : s.next? = some (t, s')) :
    ∃ blanks c cs, s.rest = blanks ++ c :: cs ∧ (∀ d ∈ blanks, isBlank d = true) ∧
      isBlank c = false ∧
      let p := Position.start.afterAll (read ++ blanks)
      let l := Lexeme.ofChars c cs
      (⟨p, c :: cs⟩ : Scanner).At source (read ++ blanks) ∧
      t = ⟨l.kind, String.ofList l.literal,
        ⟨p.offset, (p.afterAll l.text).offset, p.line, p.column⟩⟩ ∧
      s' = ⟨p.afterAll l.text, l.rest⟩ := by
  have reads' := reads.skipBlanks
  have whole : s.rest.takeWhile isBlank ++ s.skipBlanks.rest = s.rest :=
    List.takeWhile_append_dropWhile
  cases front : s.skipBlanks.rest with
  | nil =>
    have none : s.next? = none := by simp [next?, front]
    cases none.symm.trans h
  | cons c cs =>
    have first : (s.rest.dropWhile isBlank).head? = some c := congrArg List.head? front
    have there : s.skipBlanks =
        ⟨Position.start.afterAll (read ++ s.rest.takeWhile isBlank), c :: cs⟩ := by
      rw [← reads'.position, ← front]
    simp only [next?, there, Option.some.injEq, Prod.mk.injEq] at h
    rw [front] at whole
    rw [there] at reads'
    exact ⟨s.rest.takeWhile isBlank, c, cs, whole.symm, fun _ => List.mem_takeWhile_imp,
      Lexeme.head?_dropWhile first, reads', h.1.symm, h.2.symm⟩

theorem At.lexeme {p : Position} {c : Char} {cs : List Char}
    (reads : (⟨p, c :: cs⟩ : Scanner).At source read) :
    (⟨p.afterAll (Lexeme.ofChars c cs).text, (Lexeme.ofChars c cs).rest⟩ : Scanner).At source
      (read ++ (Lexeme.ofChars c cs).text) where
  text := by
    rw [List.append_assoc, Lexeme.text_append_rest]
    exact reads.text
  position := by
    rw [Position.afterAll_append, ← reads.position]
  digits := (Lexeme.ofChars_sound c cs).digits.append _ (Lexeme.text_ne_nil c cs)
  letters := (Lexeme.ofChars_sound c cs).letters.append _ (Lexeme.text_ne_nil c cs)

/-- The next token covers a text behind some blanks. -/
theorem At.next (reads : s.At source read) (h : s.next? = some (t, s')) :
    ∃ blanks text, (∀ c ∈ blanks, isBlank c = true) ∧
      t.span.start = String.utf8Len (read ++ blanks) ∧
      t.span.stop = String.utf8Len (read ++ blanks ++ text) ∧ t.Covers source ∧
      (t.kind = .string → slice source t.span.start t.span.stop = "\"" ++ t.literal →
        s'.rest = []) ∧
      s'.At source (read ++ blanks ++ text) := by
  obtain ⟨blanks, c, cs, -, blank, -, front, rfl, rfl⟩ := reads.cut h
  have reads' := front.lexeme
  have digits := front.digits
  have letters := front.letters
  have sound := Lexeme.ofChars_sound c cs
  have whole := Lexeme.text_append_rest c cs
  have some := Lexeme.text_ne_nil c cs
  generalize Lexeme.ofChars c cs = l at reads' sound whole some
  dsimp only at digits letters
  rw [← whole] at digits letters
  have start := Position.offset_afterAll_start (read ++ blanks)
  have stop := Position.offset_afterAll_start (read ++ blanks ++ l.text)
  rw [Position.afterAll_append] at stop
  refine ⟨blanks, l.text, blank, start, stop,
    sound.covers some reads'.text digits letters start stop, ?_, reads'⟩
  intro quoted open'
  obtain ⟨-, closed | ⟨-, ends⟩⟩ := sound.string quoted
  · rw [slice_cut reads'.text start stop, closed, ← String.toList_inj] at open'
    simp at open'
  · exact ends

theorem rest_skipBlanks_of_end (h : s.next? = none) : s.skipBlanks.rest = [] := by
  unfold next? at h
  dsimp only at h
  split at h
  · assumption
  · cases h

/-- Only blanks are left where there is no next token. -/
theorem At.ended (reads : s.At source read) (h : s.next? = none) :
    (∀ c ∈ s.rest, isBlank c = true) ∧ s.endSpan.start = source.utf8ByteSize ∧
      s.endSpan.stop = source.utf8ByteSize := by
  have none : s.skipBlanks.rest = [] := rest_skipBlanks_of_end h
  have all : s.rest.takeWhile isBlank = s.rest := by
    have whole := List.takeWhile_append_dropWhile (p := isBlank) (l := s.rest)
    rwa [show s.rest.dropWhile isBlank = [] from none, List.append_nil] at whole
  have size : s.skipBlanks.position.offset = source.utf8ByteSize := by
    rw [reads.skipBlanks.position, Position.offset_afterAll_start, all, ← reads.text,
      String.utf8Len_toList]
  refine ⟨fun c hc => ?_, size, size⟩
  rw [← all] at hc
  exact List.mem_takeWhile_imp hc

/-! ### Whole texts -/

theorem At.laid (reads : s.At source read) : Laid source read s.tokens := by
  induction size : s.rest.length using Nat.strongRecOn generalizing s read with
  | ind n ih =>
    subst size
    cases next : s.next? with
    | none =>
      rw [tokens_of_end next]
      exact .done reads.text (reads.ended next).1
    | some r =>
      obtain ⟨t, s'⟩ := r
      obtain ⟨blanks, text, blank, start, stop, covers, closed, reads'⟩ := reads.next next
      rw [tokens_of_next? next]
      refine .cut blank start stop covers ?_ (ih _ (rest_length_lt next) reads' rfl)
      intro quoted open'
      obtain ⟨p, rest⟩ := s'
      obtain rfl : rest = [] := closed quoted open'
      exact tokens_nil p

theorem At.stop_drainOnto (reads : s.At source read) (done : List Token) :
    (s.drainOnto done).stop.start = source.utf8ByteSize ∧
      (s.drainOnto done).stop.stop = source.utf8ByteSize := by
  fun_induction Scanner.drainOnto done s generalizing read with
  | case1 done s h => exact (reads.ended h).2
  | case2 done s t s' h ih =>
    obtain ⟨blanks, text, -, -, -, -, -, reads'⟩ := reads.next h
    exact ih reads'

end Scanner

/-- What stands before each of some tokens, behind the one before, and behind
    the last one. -/
def gaps (source : String) : Nat → List Token → List String
  | start, [] => [slice source start source.utf8ByteSize]
  | start, t :: ts => slice source start t.span.start :: gaps source t.span.stop ts

/-- The gaps, and between them the texts that the tokens cover. -/
def pieces (source : String) : Nat → List Token → List String
  | start, [] => [slice source start source.utf8ByteSize]
  | start, t :: ts =>
    slice source start t.span.start :: slice source t.span.start t.span.stop ::
      pieces source t.span.stop ts

/-- Tokens that cover a text, in order and without overlap, up to its end. -/
structure TokenStream.Lossless (source : String) (ts : TokenStream) : Prop where
  covers : ∀ t ∈ ts.tokens, t.Covers source
  ordered : ts.tokens.Pairwise fun t u => t.span.stop ≤ u.span.start
  closed : ∀ t ∈ ts.tokens, t.kind = .string →
    slice source t.span.start t.span.stop = "\"" ++ t.literal → ts.tokens.getLast? = some t
  blank : ∀ gap ∈ gaps source 0 ts.tokens, ∀ c ∈ gap.toList, isBlank c = true
  joined : String.join (pieces source 0 ts.tokens) = source
  stop : ts.stop.start = source.utf8ByteSize ∧ ts.stop.stop = source.utf8ByteSize

namespace Laid

variable {source : String} {read : List Char} {ts : List Token}

theorem covers (laid : Laid source read ts) :
    ∀ t ∈ ts, t.Covers source ∧ String.utf8Len read ≤ t.span.start := by
  induction laid with
  | done => simp
  | cut blank start stop covers closed more ih =>
    rw [String.utf8Len_append] at start
    rw [String.utf8Len_append, String.utf8Len_append] at ih
    intro u hu
    rcases List.mem_cons.mp hu with rfl | hu
    · exact ⟨covers, by omega⟩
    · have := ih u hu
      exact ⟨this.1, by omega⟩

theorem ordered (laid : Laid source read ts) :
    ts.Pairwise fun t u => t.span.stop ≤ u.span.start := by
  induction laid with
  | done => exact .nil
  | cut blank start stop covers closed more ih =>
    refine .cons ?_ ih
    rw [stop]
    exact fun u hu => (more.covers u hu).2

theorem closed (laid : Laid source read ts) : ∀ t ∈ ts, t.kind = .string →
    slice source t.span.start t.span.stop = "\"" ++ t.literal → ts.getLast? = some t := by
  induction laid with
  | done => simp
  | cut blank start stop covers closed more ih =>
    intro u hu quoted open'
    rcases List.mem_cons.mp hu with rfl | hu
    · rw [closed quoted open']
      rfl
    · rw [List.getLast?_cons, ih u hu quoted open']
      rfl

theorem joined (laid : Laid source read ts) : ∃ rest, source.toList = read ++ rest ∧
    String.join (pieces source (String.utf8Len read) ts) = String.ofList rest := by
  induction laid with
  | done text blank => exact ⟨_, text, by simp [pieces, slice_behind text]⟩
  | @cut read blanks text t ts blank start stop covers closed more ih =>
    obtain ⟨rest, cut, joined⟩ := ih
    have before : source.toList = read ++ blanks ++ (text ++ rest) := by
      rw [cut, List.append_assoc _ text]
    refine ⟨blanks ++ (text ++ rest), before.trans (List.append_assoc ..), ?_⟩
    have gap : slice source (String.utf8Len read) t.span.start = String.ofList blanks := by
      rw [start]
      exact slice_of_toList before
    rw [pieces, gap, slice_cut cut start stop, stop, String.join_cons, String.join_cons, joined,
      String.ofList_append, String.ofList_append]

theorem gaps (laid : Laid source read ts) :
    ∀ gap ∈ gaps source (String.utf8Len read) ts, ∀ c ∈ gap.toList, isBlank c = true := by
  induction laid with
  | done text blank =>
    simp only [Script.gaps, slice_behind text, List.mem_singleton]
    rintro _ rfl
    rwa [String.toList_ofList]
  | @cut read blanks text t ts blank start stop covers closed more ih =>
    obtain ⟨rest, cut, -⟩ := more.joined
    have gap : slice source (String.utf8Len read) t.span.start = String.ofList blanks := by
      rw [start]
      exact slice_of_toList (by rw [cut, List.append_assoc _ text])
    intro g hg
    rw [Script.gaps, gap, stop] at hg
    rcases List.mem_cons.mp hg with rfl | hg
    · rwa [String.toList_ofList]
    · exact ih g hg

end Laid

/-- The tokens of a text, with their literals and spans, and the blanks between
    them make up the text; no token could be longer. -/
theorem TokenStream.lossless_ofString (source : String) :
    (TokenStream.ofString source).Lossless source := by
  have reads := Scanner.at_ofString source
  have laid := reads.laid
  obtain ⟨rest, text, joined⟩ := laid.joined
  exact {
    covers := fun t ht => (laid.covers t ht).1
    ordered := laid.ordered
    closed := laid.closed
    blank := laid.gaps
    joined := joined.trans ((congrArg String.ofList text.symm).trans String.ofList_toList)
    stop := reads.stop_drainOnto [] }

end Script
