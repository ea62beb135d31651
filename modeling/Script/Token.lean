/-
  Script/Token.lean
  =================
  **Tokens of the scripting language and where they stand in the text.**

  A token is a kind, the text it carries, and a span.  The kinds form a closed
  list; each has a fixed name, which is the word diagnostics use for it.  Words
  of the language are told apart from identifiers by one table,
  `TokenKind.ofWord`.
-/
namespace Script

/-! ### Spans -/

/-- A stretch of source text: the byte offsets of its two ends, and the line
    and column of its first character, both counted from one. -/
structure Span where
  start : Nat
  stop : Nat
  line : Nat
  column : Nat
deriving DecidableEq, Repr, Inhabited

/-! ### Kinds -/

inductive TokenKind where
  | illegal
  | endOfInput
  | identifier
  | integer
  | string
  | assign
  | plus
  | minus
  | bang
  | asterisk
  | slash
  | less
  | greater
  | equal
  | notEqual
  | comma
  | semicolon
  | colon
  | leftParen
  | rightParen
  | leftBrace
  | rightBrace
  | leftBracket
  | rightBracket
  | functionWord
  | letWord
  | trueWord
  | falseWord
  | ifWord
  | elseWord
  | returnWord
  | whileWord
deriving DecidableEq, Repr, Inhabited

/-- The name under which diagnostics mention a kind. -/
def TokenKind.name : TokenKind → String
  | .illegal => "ILLEGAL"
  | .endOfInput => "EOF"
  | .identifier => "IDENT"
  | .integer => "INT"
  | .string => "STRING"
  | .assign => "="
  | .plus => "+"
  | .minus => "-"
  | .bang => "!"
  | .asterisk => "*"
  | .slash => "/"
  | .less => "<"
  | .greater => ">"
  | .equal => "=="
  | .notEqual => "!="
  | .comma => ","
  | .semicolon => ";"
  | .colon => ":"
  | .leftParen => "("
  | .rightParen => ")"
  | .leftBrace => "\x7b"
  | .rightBrace => "\x7d"
  | .leftBracket => "["
  | .rightBracket => "]"
  | .functionWord => "FUNCTION"
  | .letWord => "LET"
  | .trueWord => "TRUE"
  | .falseWord => "FALSE"
  | .ifWord => "IF"
  | .elseWord => "ELSE"
  | .returnWord => "RETURN"
  | .whileWord => "WHILE"

def TokenKind.all : List TokenKind :=
  [.illegal, .endOfInput, .identifier, .integer, .string, .assign, .plus, .minus, .bang,
   .asterisk, .slash, .less, .greater, .equal, .notEqual, .comma, .semicolon, .colon,
   .leftParen, .rightParen, .leftBrace, .rightBrace, .leftBracket, .rightBracket,
   .functionWord, .letWord, .trueWord, .falseWord, .ifWord, .elseWord, .returnWord,
   .whileWord]

def TokenKind.ofName? (name : String) : Option TokenKind :=
  TokenKind.all.find? fun kind => kind.name == name

/-- The words reserved by the language.  A function literal may be introduced
    by either of two words. -/
def TokenKind.ofKeyword? (word : String) : Option TokenKind :=
  match word with
  | "fn" | "func" => some .functionWord
  | "let" => some .letWord
  | "true" => some .trueWord
  | "false" => some .falseWord
  | "if" => some .ifWord
  | "else" => some .elseWord
  | "return" => some .returnWord
  | "while" => some .whileWord
  | _ => none

/-- A word is an identifier unless the language reserves it. -/
def TokenKind.ofWord (word : String) : TokenKind :=
  (TokenKind.ofKeyword? word).getD .identifier

/-! ### Tokens -/

/-- A token: its kind, its literal (the covered text, or what stands between
    the quotes of a string) and the text it covers. -/
structure Token where
  kind : TokenKind
  literal : String
  span : Span
deriving DecidableEq, Repr, Inhabited

/-- The token that stands for the end of the text. -/
def Token.endOfInput (span : Span) : Token := ⟨.endOfInput, "", span⟩

theorem TokenKind.mem_all (kind : TokenKind) : kind ∈ TokenKind.all := by
  cases kind <;> decide

theorem TokenKind.ofName?_name (kind : TokenKind) :
    TokenKind.ofName? kind.name = some kind := by
  cases kind <;> decide

end Script
