/-
  Script/Diagnostic.lean
  ======================
  **What can be wrong with the text of a program.**

  A fault is a cause; `Fault.message` is its wording.  A diagnostic is a fault
  and the span of the token it was found at.  Rendered against the source, it
  shows the line of that token with a caret under the token's first character.
-/
import Script.Source.Lines
import Script.Text.Quoted
import Script.Token

namespace Script

/-- Why a text is not a program: a token stands where another one must, a token
    cannot begin an expression, or an integer literal is too large. -/
inductive Fault where
  | unexpected (expected found : TokenKind)
  | noOperand (found : TokenKind)
  | integerTooLarge (literal : String)
deriving DecidableEq, Repr, Inhabited

def Fault.message [Escaping] : Fault → String
  | .unexpected expected found =>
    "expected next token to be " ++ expected.name ++ ", got " ++ found.name ++ " instead"
  | .noOperand found => "no prefix parse function for " ++ found.name ++ " found"
  | .integerTooLarge literal => "could not parse " ++ quoted literal ++ " as integer"

structure Diagnostic where
  fault : Fault
  span : Span
deriving DecidableEq, Repr, Inhabited

/-- The wording of a diagnostic, without its place. -/
def Diagnostic.message [Escaping] (d : Diagnostic) : String := d.fault.message

/-- The line of the source at which a diagnostic points, if there is one. -/
def Diagnostic.sourceLine? (d : Diagnostic) (source : String) : Option String :=
  Script.sourceLine? source d.span.line

/-- The place and wording of a diagnostic, followed by the source line and a
    caret when the line is known. -/
def Diagnostic.render [Escaping] (d : Diagnostic) (line? : Option String) : String :=
  let header := "[line " ++ toString d.span.line ++ ":" ++ toString d.span.column
    ++ "] Error: " ++ d.message
  match line? with
  | none => header
  | some line =>
    let margin := String.ofList (List.replicate (d.span.column - 1) ' ')
    header ++ "\n  | " ++ line ++ "\n  | " ++ margin ++ "^"

def Diagnostic.renderIn [Escaping] (source : String) (d : Diagnostic) : String :=
  d.render (d.sourceLine? source)

/-- One sentence on a list of diagnostics. -/
def Diagnostic.summary (ds : List Diagnostic) : String :=
  toString ds.length ++ " parse error(s)"

end Script
