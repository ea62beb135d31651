/-
  Script/Proofs/Token/Literal.lean
  ================================
  **Literals fit their kinds.**

  Whatever the text, an identifier is a name and a string holds no quote, also
  when the end of the text closes it.

  Main statement: `TokenStream.fits_of_mem`.
-/
import Mathlib.Data.List.TakeWhile
import Script.Proofs.Token.Stream

namespace Script

/-- A name: letters and underscores, at least one, and no word of the language. -/
def isName (name : String) : Bool :=
  !name.toList.isEmpty && name.toList.all isLetter && (TokenKind.ofKeyword? name).isNone

/-- Whether a text holds no double quote. -/
def isUnquoted (text : String) : Bool := text.toList.all (· != '"')

/-- What a kind promises of a literal. -/
def TokenKind.Fits : TokenKind → String → Prop
  | .identifier, literal => isName literal = true
  | .string, literal => isUnquoted literal = true
  | _, _ => True

theorem fits_of_symbol? {c : Char} {kind : TokenKind} (h : symbol? c = some kind)
    (literal : String) : kind.Fits literal := by
  unfold symbol? at h
  split at h <;> cases h <;> trivial

theorem fits_ofWord {word : List Char} (ne : word ≠ []) (letters : ∀ c ∈ word, isLetter c = true) :
    (TokenKind.ofWord (String.ofList word)).Fits (String.ofList word) := by
  cases h : TokenKind.ofKeyword? (String.ofList word) with
  | none =>
    have name : isName (String.ofList word) = true := by
      simpa [isName, h, ne] using letters
    rw [TokenKind.ofWord, h]
    exact name
  | some kind =>
    unfold TokenKind.ofKeyword? at h
    split at h <;> cases h <;> simp_all [TokenKind.ofWord, TokenKind.ofKeyword?, TokenKind.Fits]

theorem Lexeme.quoted_fits (q : Char) (cs : List Char) :
    (Lexeme.quoted q cs).kind.Fits (String.ofList (Lexeme.quoted q cs).literal) := by
  have unquoted : isUnquoted (String.ofList (cs.takeWhile (· != '"'))) = true := by
    rw [isUnquoted, String.toList_ofList]
    exact List.all_takeWhile
  unfold Lexeme.quoted
  split
  · exact unquoted
  · exact unquoted

theorem Lexeme.ofChars_fits (c : Char) (cs : List Char) :
    (Lexeme.ofChars c cs).kind.Fits (String.ofList (Lexeme.ofChars c cs).literal) := by
  by_cases letter : isLetter c = true
  · rw [Lexeme.ofChars_letter letter]
    refine fits_ofWord (by simp) ?_
    intro x hx
    rcases List.mem_cons.mp hx with rfl | hx
    · exact letter
    · exact List.mem_takeWhile_imp hx
  unfold Lexeme.ofChars
  split
  · exact fits_of_symbol? ‹_› _
  split
  · unfold Lexeme.maybeEqual
    split <;> trivial
  split
  · unfold Lexeme.maybeEqual
    split <;> trivial
  split
  · exact Lexeme.quoted_fits c cs
  split
  · trivial
  · trivial

theorem Scanner.next?_fits {s s' : Scanner} {t : Token} (h : s.next? = some (t, s')) :
    t.kind.Fits t.literal := by
  unfold Scanner.next? at h
  dsimp only at h
  split at h
  · cases h
  · rename_i c cs _
    cases h
    exact Lexeme.ofChars_fits c cs

theorem Scanner.drainOnto_fits (s : Scanner) (done : List Token)
    (before : ∀ t ∈ done, t.kind.Fits t.literal) :
    ∀ t ∈ (s.drainOnto done).tokens, t.kind.Fits t.literal := by
  fun_induction Scanner.drainOnto done s with
  | case1 done s h => simpa using before
  | case2 done s t s' h ih =>
    refine ih ?_
    intro u hu
    rcases List.mem_cons.mp hu with rfl | hu
    · exact Scanner.next?_fits h
    · exact before u hu

theorem TokenStream.fits_of_mem {source : String} {t : Token}
    (h : t ∈ (TokenStream.ofString source).tokens) : t.kind.Fits t.literal :=
  Scanner.drainOnto_fits _ [] (by simp) t h

end Script
