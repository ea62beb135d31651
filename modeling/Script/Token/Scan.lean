/-
  Script/Token/Scan.lean
  ======================
  **Reading tokens off a text.**

  `Lexeme.ofChars` cuts one token from the front of a text that does not begin
  with a blank; it takes the longest run of digits or letters, and the longer
  of two operators.  A scanner is what is left of a text together with the
  position it has reached; `Scanner.next` skips blanks and cuts a token, and at
  the end of the text answers with the end token for ever.

  Main statements: a lexeme and its rest make up the text it was cut from
  (`Lexeme.text_append_rest`), a lexeme is never empty
  (`Lexeme.text_ne_nil`), and so every token shortens the text.
-/
import Script.Source.Position
import Script.Token

namespace Script

/-! ### Classes of characters -/

/-- The characters that separate tokens and mean nothing else. -/
def isBlank (c : Char) : Bool :=
  c == ' ' || c == '\t' || c == '\n' || c == '\r'

/-- The characters of words: ASCII letters and the underscore. -/
def isLetter (c : Char) : Bool :=
  c.isAlpha || c == '_'

/-- The tokens that consist of one character whatever follows it. -/
def symbol? (c : Char) : Option TokenKind :=
  match c with
  | '+' => some .plus
  | '-' => some .minus
  | '*' => some .asterisk
  | '/' => some .slash
  | '<' => some .less
  | '>' => some .greater
  | ',' => some .comma
  | ';' => some .semicolon
  | ':' => some .colon
  | '(' => some .leftParen
  | ')' => some .rightParen
  | '{' => some .leftBrace
  | '}' => some .rightBrace
  | '[' => some .leftBracket
  | ']' => some .rightBracket
  | _ => none

/-! ### Lexemes -/

/-- One token cut from the front of a text: its kind, its literal, the text it
    covers and the text behind it. -/
structure Lexeme where
  kind : TokenKind
  literal : List Char
  text : List Char
  rest : List Char

/-- A lexeme whose literal is the text it covers. -/
def Lexeme.plain (kind : TokenKind) (text rest : List Char) : Lexeme :=
  ⟨kind, text, text, rest⟩

/-- The character `c`, or `c` and an equals sign if one follows. -/
def Lexeme.maybeEqual (c : Char) (alone followed : TokenKind) (rest : List Char) : Lexeme :=
  match rest with
  | '=' :: rest' => .plain followed [c, '='] rest'
  | _ => .plain alone [c] rest

/-- A string, from behind its opening quote `q` to its closing quote.  The
    literal is what stands between; the end of the text closes a string too. -/
def Lexeme.quoted (q : Char) (cs : List Char) : Lexeme :=
  let content := cs.takeWhile (· != '"')
  match cs.dropWhile (· != '"') with
  | [] => ⟨.string, content, q :: content, []⟩
  | close :: rest => ⟨.string, content, q :: (content ++ [close]), rest⟩

/-- Cut one token from the text `c :: cs`. -/
def Lexeme.ofChars (c : Char) (cs : List Char) : Lexeme :=
  match symbol? c with
  | some kind => .plain kind [c] cs
  | none =>
    if c = '=' then .maybeEqual c .assign .equal cs
    else if c = '!' then .maybeEqual c .bang .notEqual cs
    else if c = '"' then .quoted c cs
    else if c.isDigit then
      .plain .integer (c :: cs.takeWhile Char.isDigit) (cs.dropWhile Char.isDigit)
    else if isLetter c then
      let word := c :: cs.takeWhile isLetter
      .plain (.ofWord (String.ofList word)) word (cs.dropWhile isLetter)
    else .plain .illegal [c] cs

theorem Lexeme.text_append_rest (c : Char) (cs : List Char) :
    (Lexeme.ofChars c cs).text ++ (Lexeme.ofChars c cs).rest = c :: cs := by
  have quoted (q : Char) : (Lexeme.quoted q cs).text ++ (Lexeme.quoted q cs).rest = q :: cs := by
    have h := List.takeWhile_append_dropWhile (p := (· != '"')) (l := cs)
    unfold Lexeme.quoted
    cases hd : cs.dropWhile (· != '"') with
    | nil => simp_all
    | cons close rest => rw [hd] at h; simp [h]
  have maybeEqual (a b : TokenKind) :
      (Lexeme.maybeEqual c a b cs).text ++ (Lexeme.maybeEqual c a b cs).rest = c :: cs := by
    unfold Lexeme.maybeEqual
    split <;> simp [Lexeme.plain]
  unfold Lexeme.ofChars
  split
  · rfl
  · split
    · exact maybeEqual _ _
    split
    · exact maybeEqual _ _
    split
    · exact quoted c
    split
    · simp [Lexeme.plain, List.takeWhile_append_dropWhile]
    split
    · simp [Lexeme.plain, List.takeWhile_append_dropWhile]
    · rfl

theorem Lexeme.text_ne_nil (c : Char) (cs : List Char) : (Lexeme.ofChars c cs).text ≠ [] := by
  unfold Lexeme.ofChars Lexeme.maybeEqual Lexeme.quoted
  dsimp only
  repeat' split
  all_goals simp [Lexeme.plain]

theorem Lexeme.rest_length_le (c : Char) (cs : List Char) :
    (Lexeme.ofChars c cs).rest.length ≤ cs.length := by
  have h := congrArg List.length (Lexeme.text_append_rest c cs)
  have ne := List.length_pos_iff.mpr (Lexeme.text_ne_nil c cs)
  simp only [List.length_append, List.length_cons] at h
  omega

/-! ### Scanners -/

/-- What is left of a text, and the position it begins at. -/
structure Scanner where
  position : Position
  rest : List Char

def Scanner.ofString (source : String) : Scanner := ⟨.start, source.toList⟩

def Scanner.skipBlanks (s : Scanner) : Scanner :=
  ⟨s.position.afterAll (s.rest.takeWhile isBlank), s.rest.dropWhile isBlank⟩

/-- The next token and the scanner behind it, or the end of the text. -/
def Scanner.next? (s : Scanner) : Option (Token × Scanner) :=
  let s := s.skipBlanks
  match s.rest with
  | [] => none
  | c :: cs =>
    let lexeme := Lexeme.ofChars c cs
    let stop := s.position.afterAll lexeme.text
    let span : Span := ⟨s.position.offset, stop.offset, s.position.line, s.position.column⟩
    some (⟨lexeme.kind, String.ofList lexeme.literal, span⟩, ⟨stop, lexeme.rest⟩)

/-- The span of the end token, when only blanks are left. -/
def Scanner.endSpan (s : Scanner) : Span :=
  let p := s.skipBlanks.position
  ⟨p.offset, p.offset, p.line, p.column⟩

/-- The next token; behind the last one, the end token again and again. -/
def Scanner.next (s : Scanner) : Token × Scanner :=
  (s.next?).getD (.endOfInput s.endSpan, s.skipBlanks)

theorem Scanner.rest_length_lt {s s' : Scanner} {t : Token} (h : s.next? = some (t, s')) :
    s'.rest.length < s.rest.length := by
  have blanks : s.skipBlanks.rest.length ≤ s.rest.length :=
    (List.dropWhile_sublist isBlank).length_le
  unfold Scanner.next? at h
  dsimp only at h
  split at h
  · cases h
  · rename_i c cs hr
    cases h
    have := Lexeme.rest_length_le c cs
    rw [hr, List.length_cons] at blanks
    dsimp only
    omega

/-! ### Whole texts -/

/-- The tokens of a text, and the span of its end. -/
structure TokenStream where
  tokens : List Token
  stop : Span
deriving DecidableEq, Repr, Inhabited

/-- Read every token that is left, behind those in `done`, latest first. -/
def Scanner.drainOnto (done : List Token) (s : Scanner) : TokenStream :=
  match _h : s.next? with
  | none => ⟨done.reverse, s.endSpan⟩
  | some (t, s') => s'.drainOnto (t :: done)
termination_by s.rest.length
decreasing_by exact Scanner.rest_length_lt _h

def TokenStream.ofString (source : String) : TokenStream :=
  (Scanner.ofString source).drainOnto []

/-- All tokens, with the end token last. -/
def TokenStream.toList (s : TokenStream) : List Token :=
  s.tokens ++ [.endOfInput s.stop]

end Script
