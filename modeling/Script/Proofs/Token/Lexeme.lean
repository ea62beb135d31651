/-
  Script/Proofs/Token/Lexeme.lean
  ===============================
  **Lexemes are as long as they can be.**

  What is cut from the front of a text is a whole run of digits or letters, the
  longer of two operators, or a string up to its closing quote.  So no digit
  stands next to a number in the text, and no letter next to a word.

  Main statement: `Lexeme.ofChars_sound`.
-/
import Mathlib.Data.List.TakeWhile
import Script.Proofs.Token.Stream

namespace Script

/-- The kinds of words: the identifier, and one kind for each reserved word. -/
def TokenKind.isWord : TokenKind → Bool
  | .identifier | .functionWord | .letWord | .trueWord | .falseWord | .ifWord | .elseWord
  | .returnWord | .whileWord => true
  | _ => false

theorem TokenKind.isWord_of_ofKeyword? {word : String} {kind : TokenKind}
    (h : TokenKind.ofKeyword? word = some kind) : kind.isWord = true ∧ kind ≠ .identifier := by
  unfold TokenKind.ofKeyword? at h
  split at h <;> cases h <;> exact ⟨rfl, nofun⟩

theorem TokenKind.isWord_ofWord (word : String) : (TokenKind.ofWord word).isWord = true := by
  cases h : TokenKind.ofKeyword? word with
  | none =>
    rw [ofWord, h]
    rfl
  | some kind =>
    rw [ofWord, h]
    exact (isWord_of_ofKeyword? h).1

/-- Words are identifiers unless they are reserved. -/
theorem TokenKind.ofWord_eq_identifier_iff (word : String) :
    TokenKind.ofWord word = .identifier ↔ TokenKind.ofKeyword? word = none := by
  cases h : TokenKind.ofKeyword? word with
  | none => simp [ofWord, h]
  | some kind => simp [ofWord, h, (isWord_of_ofKeyword? h).2]

/-! ### Cuts -/

/-- Characters of a class do not stand on both sides of a cut. -/
def Apart (p : Char → Bool) (left right : List Char) : Prop :=
  ∀ c d, left.getLast? = some c → right.head? = some d → p c = true → p d = false

namespace Apart

variable {p : Char → Bool} {left right : List Char}

theorem of_last (h : ∀ c, left.getLast? = some c → p c = false) : Apart p left right := by
  intro c d last _ inside
  rw [h c last] at inside
  cases inside

theorem of_head (h : ∀ d, right.head? = some d → p d = false) : Apart p left right :=
  fun _ d _ first _ => h d first

theorem append (before : List Char) (ne : left ≠ []) (h : Apart p left right) :
    Apart p (before ++ left) right := by
  intro c d last
  rw [List.getLast?_append, List.getLast?_eq_some_getLast ne, Option.some_or] at last
  exact h c d ((List.getLast?_eq_some_getLast ne).trans last)

end Apart

/-! ### What the kind of a lexeme says -/

/-- What the kind of a lexeme says of the text that it covers and of the text
    behind it, and that no run of digits or letters goes on there. -/
structure Lexeme.Sound (l : Lexeme) : Prop where
  proper : l.kind ≠ .endOfInput
  literal : l.kind ≠ .string → l.literal = l.text
  string : l.kind = .string → (∀ c ∈ l.literal, c ≠ '"') ∧
    (l.text = '"' :: (l.literal ++ ['"']) ∨ l.text = '"' :: l.literal ∧ l.rest = [])
  integer : l.kind = .integer → ∀ c ∈ l.text, c.isDigit = true
  word : l.kind.isWord = true →
    (∀ c ∈ l.text, isLetter c = true) ∧ l.kind = .ofWord (String.ofList l.literal)
  alone : l.kind = .assign ∨ l.kind = .bang → l.rest.head? ≠ some '='
  digits : Apart Char.isDigit l.text l.rest
  letters : Apart isLetter l.text l.rest

namespace Lexeme

/-- The kinds that say nothing of the text but that it is no number, no word and
    no string. -/
def isMark (kind : TokenKind) : Bool :=
  !(kind.isWord || kind == .endOfInput || kind == .string || kind == .integer)

theorem sound_mark {kind : TokenKind} {text rest : List Char} (mark : isMark kind = true)
    (alone : kind = .assign ∨ kind = .bang → rest.head? ≠ some '=')
    (digit : ∀ c, text.getLast? = some c → c.isDigit = false)
    (letter : ∀ c, text.getLast? = some c → isLetter c = false) :
    (plain kind text rest).Sound := by
  simp only [isMark, Bool.not_eq_true', Bool.or_eq_false_iff, beq_eq_false_iff_ne] at mark
  obtain ⟨⟨⟨word, proper⟩, string⟩, integer⟩ := mark
  exact {
    proper := proper
    literal := fun _ => rfl
    string := fun h => absurd h string
    integer := fun h => absurd h integer
    word := fun h => absurd (h.symm.trans word) nofun
    alone := alone
    digits := .of_last digit
    letters := .of_last letter }

theorem sound_symbol {c : Char} {kind : TokenKind} (h : symbol? c = some kind) (cs : List Char) :
    (plain kind [c] cs).Sound := by
  have mark : isMark kind = true ∧ ¬(kind = .assign ∨ kind = .bang) := by
    unfold symbol? at h
    split at h <;> cases h <;> decide
  refine sound_mark mark.1 (fun single => absurd single mark.2) ?_ ?_
  · intro d last
    obtain rfl : c = d := Option.some.inj last
    cases digit : c.isDigit with
    | false => rfl
    | true => cases (symbol?_of_digit digit).symm.trans h
  · intro d last
    obtain rfl : c = d := Option.some.inj last
    cases letter : isLetter c with
    | false => rfl
    | true => cases (symbol?_of_letter letter).symm.trans h

theorem sound_maybeEqual {c : Char} (digit : c.isDigit = false) (letter : isLetter c = false)
    {alone followed : TokenKind} (one : isMark alone = true) (two : isMark followed = true)
    (other : ¬(followed = .assign ∨ followed = .bang)) (cs : List Char) :
    (maybeEqual c alone followed cs).Sound := by
  unfold maybeEqual
  split
  · refine sound_mark two (fun single => absurd single other) ?_ ?_
    · rintro d ⟨⟩
      rfl
    · rintro d ⟨⟩
      rfl
  · rename_i different
    refine sound_mark one ?_ ?_ ?_
    · intro _ equal
      cases cs with
      | nil => cases equal
      | cons d rest =>
        cases equal
        exact different rest rfl
    · rintro d ⟨⟩
      exact digit
    · rintro d ⟨⟩
      exact letter

/-- A string ends with its closing quote, or where the text ends. -/
theorem sound_quoted (cs : List Char) : (quoted '"' cs).Sound := by
  have inside : ∀ c ∈ cs.takeWhile (· != '"'), c ≠ '"' := by
    intro c hc
    simpa using List.mem_takeWhile_imp hc
  unfold quoted
  cases dropped : cs.dropWhile (· != '"') with
  | nil =>
    exact {
      proper := nofun
      literal := fun h => absurd rfl h
      string := fun _ => ⟨inside, .inr ⟨rfl, rfl⟩⟩
      integer := nofun
      word := nofun
      alone := nofun
      digits := .of_head nofun
      letters := .of_head nofun }
  | cons close rest =>
    have quote : close = '"' := by
      have stopped := List.head_dropWhile_not (· != '"') (l := cs) (by simp [dropped])
      simpa [dropped] using stopped
    subst quote
    have last : ∀ c, ('"' :: (cs.takeWhile (· != '"') ++ ['"'])).getLast? = some c → c = '"' := by
      intro c
      rw [← List.cons_append, List.getLast?_concat]
      rintro ⟨⟩
      rfl
    exact {
      proper := nofun
      literal := fun h => absurd rfl h
      string := fun _ => ⟨inside, .inl rfl⟩
      integer := nofun
      word := nofun
      alone := nofun
      digits := .of_last fun c h => last c h ▸ rfl
      letters := .of_last fun c h => last c h ▸ rfl }

/-- What is behind a run of a class does not begin with it. -/
theorem head?_dropWhile {p : Char → Bool} {cs : List Char} {d : Char}
    (h : (cs.dropWhile p).head? = some d) : p d = false := by
  cases dropped : cs.dropWhile p with
  | nil =>
    rw [dropped] at h
    cases h
  | cons e rest =>
    have stopped := List.head_dropWhile_not p (l := cs) (by simp [dropped])
    rw [dropped] at h
    cases h
    simpa [dropped] using stopped

theorem all_run {p : Char → Bool} {c : Char} (first : p c = true) (cs : List Char) :
    ∀ d ∈ c :: cs.takeWhile p, p d = true := by
  intro d hd
  rcases List.mem_cons.mp hd with rfl | hd
  · exact first
  · exact List.mem_takeWhile_imp hd

theorem sound_digits {c : Char} (digit : c.isDigit = true) (cs : List Char) :
    (plain .integer (c :: cs.takeWhile Char.isDigit) (cs.dropWhile Char.isDigit)).Sound where
  proper := nofun
  literal _ := rfl
  string := nofun
  integer _ := all_run digit cs
  word := nofun
  alone := nofun
  digits := .of_head fun _ => head?_dropWhile
  letters := .of_last fun d h => by
    have digit' : d.isDigit = true := all_run digit cs d (List.mem_of_getLast? h)
    cases letter : isLetter d with
    | false => rfl
    | true => cases (isDigit_of_letter letter).symm.trans digit'

theorem sound_word {c : Char} (letter : isLetter c = true) (cs : List Char) :
    (plain (.ofWord (String.ofList (c :: cs.takeWhile isLetter))) (c :: cs.takeWhile isLetter)
      (cs.dropWhile isLetter)).Sound := by
  have word := TokenKind.isWord_ofWord (String.ofList (c :: cs.takeWhile isLetter))
  have other : ∀ kind : TokenKind, kind.isWord = false →
      TokenKind.ofWord (String.ofList (c :: cs.takeWhile isLetter)) ≠ kind := by
    rintro kind none rfl
    cases word.symm.trans none
  exact {
    proper := other _ rfl
    literal := fun _ => rfl
    string := fun h => absurd h (other _ rfl)
    integer := fun h => absurd h (other _ rfl)
    word := fun _ => ⟨all_run letter cs, rfl⟩
    alone := fun h => (h.elim (other _ rfl) (other _ rfl)).elim
    digits := .of_last fun d h =>
      isDigit_of_letter (all_run letter cs d (List.mem_of_getLast? h))
    letters := .of_head fun _ => head?_dropWhile }

/-- The kind of a lexeme is right, and no longer text could be cut off. -/
theorem ofChars_sound (c : Char) (cs : List Char) : (ofChars c cs).Sound := by
  unfold ofChars
  split
  · exact sound_symbol ‹_› cs
  split
  · rename_i equal
    subst equal
    exact sound_maybeEqual rfl rfl (by decide) (by decide) (by decide) cs
  split
  · rename_i bang
    subst bang
    exact sound_maybeEqual rfl rfl (by decide) (by decide) (by decide) cs
  split
  · rename_i quote
    subst quote
    exact sound_quoted cs
  split
  · exact sound_digits ‹_› cs
  split
  · exact sound_word ‹_› cs
  · rename_i digit letter
    refine sound_mark rfl nofun ?_ ?_
    · rintro d ⟨⟩
      exact Bool.eq_false_iff.mpr digit
    · rintro d ⟨⟩
      exact Bool.eq_false_iff.mpr letter

end Lexeme

end Script
