/-
  Script/Proofs/Token/Stream.lean
  ===============================
  **The tokens of a text, piece by piece.**

  The tokens that a scanner has before it depend on the text that is left, and
  on its position only in their spans.  A text is taken apart from the front:
  blanks yield nothing (`Scanner.tokens_blank`), anything else the token cut
  off there (`Scanner.tokens_lexeme`).

  Main statements: which texts begin with a given token (`cuts_symbol`,
  `cuts_equal`, `cuts_notEqual`, `cuts_assign`, `cuts_bang`, `cuts_quoted`,
  `cuts_word`, `cuts_digits`).
-/
import Script.Token.Scan

namespace Script

/-- The tokens that a scanner has before it. -/
def Scanner.tokens (s : Scanner) : List Token := (s.drainOnto []).tokens

theorem Scanner.drainOnto_of_next? {s s' : Scanner} {t : Token} (h : s.next? = some (t, s'))
    (done : List Token) : s.drainOnto done = s'.drainOnto (t :: done) := by
  rw [drainOnto]
  split
  · rename_i ended
    rw [h] at ended
    cases ended
  · rename_i u s'' next
    rw [h] at next
    cases next
    rfl

theorem Scanner.drainOnto_of_end {s : Scanner} (h : s.next? = none) (done : List Token) :
    s.drainOnto done = ⟨done.reverse, s.endSpan⟩ := by
  rw [drainOnto]
  split
  · rfl
  · rename_i t s' next
    rw [h] at next
    cases next

theorem Scanner.drainOnto_append (s : Scanner) (done before : List Token) :
    (s.drainOnto (done ++ before)).tokens = before.reverse ++ (s.drainOnto done).tokens := by
  fun_induction Scanner.drainOnto done s with
  | case1 done s h => simp [drainOnto_of_end h]
  | case2 done s t s' h ih => rw [drainOnto_of_next? h, ← List.cons_append, ih]

theorem Scanner.tokens_of_next? {s s' : Scanner} {t : Token} (h : s.next? = some (t, s')) :
    s.tokens = t :: s'.tokens := by
  rw [tokens, drainOnto_of_next? h]
  exact s'.drainOnto_append [] [t]

theorem Scanner.tokens_of_end {s : Scanner} (h : s.next? = none) : s.tokens = [] := by
  rw [tokens, drainOnto_of_end h]
  rfl

theorem TokenStream.ofString_tokens (source : String) :
    (TokenStream.ofString source).tokens = (Scanner.ofString source).tokens := rfl

/-! ### The front of a text -/

theorem Scanner.tokens_nil (p : Position) : (⟨p, []⟩ : Scanner).tokens = [] :=
  Scanner.tokens_of_end rfl

theorem Scanner.tokens_blank {c : Char} (blank : isBlank c = true) (p : Position)
    (cs : List Char) : (⟨p, c :: cs⟩ : Scanner).tokens = (⟨p.after c, cs⟩ : Scanner).tokens := by
  have skip : (⟨p, c :: cs⟩ : Scanner).skipBlanks = (⟨p.after c, cs⟩ : Scanner).skipBlanks := by
    simp [skipBlanks, blank]
  have next : (⟨p, c :: cs⟩ : Scanner).next? = (⟨p.after c, cs⟩ : Scanner).next? := by
    simp only [next?, skip]
  cases h : (⟨p.after c, cs⟩ : Scanner).next? with
  | none => rw [tokens_of_end h, tokens_of_end (next.trans h)]
  | some r => rw [tokens_of_next? h, tokens_of_next? (next.trans h)]

/-- Where no blank stands, a lexeme is cut off, and its span begins there. -/
theorem Scanner.next?_lexeme {c : Char} (solid : isBlank c = false) (p : Position)
    (cs : List Char) :
    (⟨p, c :: cs⟩ : Scanner).next? =
      let l := Lexeme.ofChars c cs
      some (⟨l.kind, String.ofList l.literal,
        ⟨p.offset, (p.afterAll l.text).offset, p.line, p.column⟩⟩, ⟨p.afterAll l.text, l.rest⟩) := by
  have skip : (⟨p, c :: cs⟩ : Scanner).skipBlanks = ⟨p, c :: cs⟩ := by
    simp [skipBlanks, solid]
  simp only [next?, skip]

theorem Scanner.tokens_lexeme {c : Char} (solid : isBlank c = false) (p : Position)
    (cs : List Char) :
    ∃ t p', t.kind = (Lexeme.ofChars c cs).kind ∧
      t.literal = String.ofList (Lexeme.ofChars c cs).literal ∧
      (⟨p, c :: cs⟩ : Scanner).tokens
        = t :: (⟨p', (Lexeme.ofChars c cs).rest⟩ : Scanner).tokens :=
  ⟨_, _, rfl, rfl, tokens_of_next? (next?_lexeme solid p cs)⟩

/-! ### Texts that begin with a given token -/

/-- Wherever it stands, the text `cs` begins with a token of this kind and
    literal, and goes on with `rest`. -/
def Cuts (cs : List Char) (kind : TokenKind) (literal : String) (rest : List Char) : Prop :=
  ∀ p, ∃ t p', t.kind = kind ∧ t.literal = literal ∧
    (⟨p, cs⟩ : Scanner).tokens = t :: (⟨p', rest⟩ : Scanner).tokens

theorem takeWhile_dropWhile_append {p : Char → Bool} {xs rest : List Char}
    (all : ∀ x ∈ xs, p x = true) (stop : ∀ c cs, rest = c :: cs → p c = false) :
    (xs ++ rest).takeWhile p = xs ∧ (xs ++ rest).dropWhile p = rest := by
  rw [List.takeWhile_append_of_pos all, List.dropWhile_append_of_pos all]
  cases rest with
  | nil => simp
  | cons c cs => simp [stop c cs rfl]

theorem cuts_of_ofChars {c : Char} {cs literal rest : List Char} {kind : TokenKind}
    (solid : isBlank c = false) (text : List Char)
    (h : Lexeme.ofChars c cs = ⟨kind, literal, text, rest⟩) :
    Cuts (c :: cs) kind (String.ofList literal) rest := by
  intro p
  obtain ⟨t, p', ht, hl, tokens⟩ := Scanner.tokens_lexeme solid p cs
  rw [h] at ht hl tokens
  exact ⟨t, p', ht, hl, tokens⟩

theorem symbol?_eq_some {c : Char} {kind : TokenKind} (h : symbol? c = some kind) :
    isBlank c = false := by
  unfold symbol? at h
  split at h <;> first | rfl | cases h

theorem cuts_symbol {c : Char} {kind : TokenKind} (h : symbol? c = some kind) (rest : List Char) :
    Cuts (c :: rest) kind (String.ofList [c]) rest := by
  refine cuts_of_ofChars (symbol?_eq_some h) [c] ?_
  simp [Lexeme.ofChars, h, Lexeme.plain]

theorem cuts_equal (rest : List Char) : Cuts ('=' :: '=' :: rest) .equal "==" rest :=
  cuts_of_ofChars (by decide) ['=', '='] rfl

theorem cuts_notEqual (rest : List Char) : Cuts ('!' :: '=' :: rest) .notEqual "!=" rest :=
  cuts_of_ofChars (by decide) ['!', '='] rfl

theorem maybeEqual_alone {c : Char} {alone followed : TokenKind} {rest : List Char}
    (other : rest.head? ≠ some '=') :
    Lexeme.maybeEqual c alone followed rest = .plain alone [c] rest := by
  unfold Lexeme.maybeEqual
  split
  · exact absurd rfl other
  · rfl

theorem cuts_assign {rest : List Char} (other : rest.head? ≠ some '=') :
    Cuts ('=' :: rest) .assign "=" rest := by
  refine cuts_of_ofChars (by decide) ['='] ?_
  simp [Lexeme.ofChars, symbol?, maybeEqual_alone other, Lexeme.plain]

theorem cuts_bang {rest : List Char} (other : rest.head? ≠ some '=') :
    Cuts ('!' :: rest) .bang "!" rest := by
  refine cuts_of_ofChars (by decide) ['!'] ?_
  simp [Lexeme.ofChars, symbol?, maybeEqual_alone other, Lexeme.plain]

/-- A text between quotes, that holds none, is one string. -/
theorem cuts_quoted {text : List Char} (plain : ∀ c ∈ text, (c != '"') = true)
    (rest : List Char) : Cuts ('"' :: (text ++ '"' :: rest)) .string (String.ofList text) rest := by
  have ends : ∀ c cs, '"' :: rest = c :: cs → (c != '"') = false := fun c cs h => by cases h; rfl
  obtain ⟨taken, dropped⟩ := takeWhile_dropWhile_append plain ends
  refine cuts_of_ofChars (by decide) ('"' :: (text ++ ['"'])) ?_
  simp [Lexeme.ofChars, symbol?, Lexeme.quoted, taken, dropped]

/-! ### Words and numbers -/

/-- What may stand behind a word or a number without becoming part of it. -/
def Boundary (rest : List Char) : Prop :=
  ∀ c cs, rest = c :: cs → isLetter c = false ∧ c.isDigit = false

theorem Boundary.nil : Boundary [] := fun _ _ h => nomatch h

theorem Boundary.cons {c : Char} (letter : isLetter c = false) (digit : c.isDigit = false)
    {cs : List Char} : Boundary (c :: cs) := by
  intro c' cs' h
  cases h
  exact ⟨letter, digit⟩

theorem symbol?_of_letter {c : Char} (h : isLetter c = true) : symbol? c = none := by
  unfold symbol?
  split <;> first | rfl | exact absurd h (by decide)

theorem symbol?_of_digit {c : Char} (h : c.isDigit = true) : symbol? c = none := by
  unfold symbol?
  split <;> first | rfl | exact absurd h (by decide)

/-- Letters and the underscore come behind the digits. -/
theorem isDigit_of_letter {c : Char} (h : isLetter c = true) : c.isDigit = false := by
  rw [Bool.eq_false_iff]
  intro digit
  have last : c.val ≤ '9'.val := of_decide_eq_true (Bool.and_eq_true_iff.mp digit).2
  rcases Bool.or_eq_true_iff.mp h with letter | underscore
  · rcases Bool.or_eq_true_iff.mp letter with upper | lower
    · have first : 'A'.val ≤ c.val := (of_decide_eq_true upper).1
      exact absurd (UInt32.le_trans first last) (by decide)
    · have first : 'a'.val ≤ c.val := of_decide_eq_true (Bool.and_eq_true_iff.mp lower).1
      exact absurd (UInt32.le_trans first last) (by decide)
  · rw [beq_iff_eq.mp underscore] at digit
    exact absurd digit (by decide)

/-- A character of a class is no character outside it. -/
theorem ne_of_class {p : Char → Bool} {c d : Char} (h : p c = true) (hd : p d = false) : c ≠ d := by
  intro same
  rw [same, hd] at h
  cases h

theorem isBlank_of_letter {c : Char} (h : isLetter c = true) : isBlank c = false := by
  have space : c ≠ ' ' := ne_of_class h rfl
  have tab : c ≠ '\t' := ne_of_class h rfl
  have feed : c ≠ '\n' := ne_of_class h rfl
  have carriage : c ≠ '\r' := ne_of_class h rfl
  simp [isBlank, space, tab, feed, carriage]

theorem isBlank_of_digit {c : Char} (h : c.isDigit = true) : isBlank c = false := by
  have space : c ≠ ' ' := ne_of_class h rfl
  have tab : c ≠ '\t' := ne_of_class h rfl
  have feed : c ≠ '\n' := ne_of_class h rfl
  have carriage : c ≠ '\r' := ne_of_class h rfl
  simp [isBlank, space, tab, feed, carriage]

theorem isDigit_of_blank {c : Char} (h : isBlank c = true) : c.isDigit = false := by
  rw [Bool.eq_false_iff]
  intro digit
  rw [isBlank_of_digit digit] at h
  cases h

theorem isLetter_of_blank {c : Char} (h : isBlank c = true) : isLetter c = false := by
  rw [Bool.eq_false_iff]
  intro letter
  rw [isBlank_of_letter letter] at h
  cases h

theorem Lexeme.ofChars_letter {c : Char} (h : isLetter c = true) (cs : List Char) :
    Lexeme.ofChars c cs =
      .plain (.ofWord (String.ofList (c :: cs.takeWhile isLetter))) (c :: cs.takeWhile isLetter)
        (cs.dropWhile isLetter) := by
  have equal : c ≠ '=' := ne_of_class h rfl
  have bang : c ≠ '!' := ne_of_class h rfl
  have quote : c ≠ '"' := ne_of_class h rfl
  simp [Lexeme.ofChars, symbol?_of_letter h, equal, bang, quote, isDigit_of_letter h, h]

theorem Lexeme.ofChars_digit {c : Char} (h : c.isDigit = true) (cs : List Char) :
    Lexeme.ofChars c cs =
      .plain .integer (c :: cs.takeWhile Char.isDigit) (cs.dropWhile Char.isDigit) := by
  have equal : c ≠ '=' := ne_of_class h rfl
  have bang : c ≠ '!' := ne_of_class h rfl
  have quote : c ≠ '"' := ne_of_class h rfl
  simp [Lexeme.ofChars, symbol?_of_digit h, equal, bang, quote, h]

/-- A run of letters, up to something else, is one word. -/
theorem cuts_word {word rest : List Char} (ne : word ≠ [])
    (letters : ∀ c ∈ word, isLetter c = true) (stop : Boundary rest) :
    Cuts (word ++ rest) (.ofWord (String.ofList word)) (String.ofList word) rest := by
  obtain ⟨c, cs, rfl⟩ := List.exists_cons_of_ne_nil ne
  have first : isLetter c = true := letters c (by simp)
  have others : ∀ x ∈ cs, isLetter x = true := fun x hx => letters x (by simp [hx])
  have ends : ∀ c cs, rest = c :: cs → isLetter c = false := fun c cs h => (stop c cs h).1
  obtain ⟨taken, dropped⟩ := takeWhile_dropWhile_append others ends
  rw [List.cons_append]
  refine cuts_of_ofChars (isBlank_of_letter first) (c :: cs) ?_
  rw [Lexeme.ofChars_letter first, taken, dropped]
  rfl

theorem Lexeme.ofChars_digits {c : Char} {cs rest : List Char}
    (all : ∀ d ∈ c :: cs, d.isDigit = true) (stop : Boundary rest) :
    Lexeme.ofChars c (cs ++ rest) = .plain .integer (c :: cs) rest := by
  have first : c.isDigit = true := all c (by simp)
  have others : ∀ x ∈ cs, x.isDigit = true := fun x hx => all x (by simp [hx])
  have ends : ∀ c cs, rest = c :: cs → c.isDigit = false := fun c cs h => (stop c cs h).2
  obtain ⟨taken, dropped⟩ := takeWhile_dropWhile_append others ends
  rw [Lexeme.ofChars_digit first, taken, dropped]

/-- A run of digits, up to something else, is one number. -/
theorem cuts_digits {digits rest : List Char} (ne : digits ≠ [])
    (all : ∀ c ∈ digits, c.isDigit = true) (stop : Boundary rest) :
    Cuts (digits ++ rest) .integer (String.ofList digits) rest := by
  obtain ⟨c, cs, rfl⟩ := List.exists_cons_of_ne_nil ne
  exact cuts_of_ofChars (isBlank_of_digit (all c (by simp))) (c :: cs)
    (Lexeme.ofChars_digits all stop)

/-! ### Texts in pieces -/

/-- Wherever it stands, the text `cs` begins with tokens of which `P` holds, and
    goes on with `rest`. -/
def Scans (P : List Token → Prop) (cs rest : List Char) : Prop :=
  ∀ p, ∃ ts p', P ts ∧ (⟨p, cs⟩ : Scanner).tokens = ts ++ (⟨p', rest⟩ : Scanner).tokens

namespace Scans

variable {P Q : List Token → Prop} {cs middle rest : List Char}

theorem nothing (h : P []) : Scans P rest rest :=
  fun p => ⟨[], p, h, rfl⟩

theorem cons {kind : TokenKind} {literal : String} (first : Cuts cs kind literal middle)
    (more : ∀ t, t.kind = kind → t.literal = literal → Scans (fun us => P (t :: us)) middle rest) :
    Scans P cs rest := by
  intro p
  obtain ⟨t, p', isKind, isLiteral, scan⟩ := first p
  obtain ⟨us, p'', holds, scan'⟩ := more t isKind isLiteral p'
  exact ⟨t :: us, p'', holds, by rw [scan, scan', List.cons_append]⟩

theorem append (first : Scans P cs middle)
    (more : ∀ ts, P ts → Scans (fun us => Q (ts ++ us)) middle rest) : Scans Q cs rest := by
  intro p
  obtain ⟨ts, p', holds, scan⟩ := first p
  obtain ⟨us, p'', holds', scan'⟩ := more ts holds p'
  exact ⟨ts ++ us, p'', holds', by rw [scan, scan', List.append_assoc]⟩

theorem blank {c : Char} (blank : isBlank c = true) (more : Scans P cs rest) :
    Scans P (c :: cs) rest := by
  intro p
  obtain ⟨ts, p', holds, scan⟩ := more (p.after c)
  exact ⟨ts, p', holds, (Scanner.tokens_blank blank p cs).trans scan⟩

theorem mono (h : Scans P cs rest) (imp : ∀ ts, P ts → Q ts) : Scans Q cs rest := by
  intro p
  obtain ⟨ts, p', holds, scan⟩ := h p
  exact ⟨ts, p', imp ts holds, scan⟩

end Scans

/-- A text that yields tokens to its end yields no others. -/
theorem TokenStream.ofString_of_scans {P : List Token → Prop} {source : String}
    (h : Scans P source.toList []) : P (TokenStream.ofString source).tokens := by
  obtain ⟨ts, p, holds, scan⟩ := h .start
  rw [Scanner.tokens_nil, List.append_nil] at scan
  rw [TokenStream.ofString_tokens, Scanner.ofString, scan]
  exact holds

end Script
