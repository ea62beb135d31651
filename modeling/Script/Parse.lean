/-
  Script/Parse.lean
  =================
  **From text to programs.**

  Parsing steps until no step is left.  It always yields a program, made of the
  statements that could be read, together with the diagnostics in the order in
  which they were found; the text is accepted if there are none.
-/
import Script.Expr.Render
import Script.Parse.Size

namespace Script

/-- Step until the parser has finished. -/
def ParseState.finish (s : ParseState) : ParseState :=
  match _h : s.step? with
  | none => s
  | some s' => s'.finish
termination_by s.size
decreasing_by exact ParseState.size_lt_of_step _h

/-- The program that a finished state holds. -/
def ParseState.program (s : ParseState) : Program :=
  match s.control with
  | .closed block .program => ⟨block⟩
  | _ => ⟨[]⟩

/-- The expression that a finished state holds, unless it failed. -/
def ParseState.expression? (s : ParseState) : Option Expr :=
  match s.control with
  | .whole e .alone => some e
  | _ => none

/-- What a text says: the statements that could be read, and what is wrong. -/
structure Parsed where
  program : Program
  diagnostics : List Diagnostic
deriving DecidableEq, Inhabited

/-- Whether nothing is wrong with a text. -/
def Parsed.accepted (p : Parsed) : Bool := p.diagnostics.isEmpty

/-- The program, if nothing is wrong. -/
def Parsed.toExcept (p : Parsed) : Except (List Diagnostic) Program :=
  if p.accepted then .ok p.program else .error p.diagnostics

/-- Read statements from a cursor to the end of the text, behind diagnostics
    recorded before. -/
def Parsed.ofCursor (c : Cursor) (before : List Diagnostic) : Parsed :=
  let final := ParseState.finish ⟨.statements [] .program, c, before⟩
  ⟨final.program, final.diagnostics⟩

def Parsed.ofStream (s : TokenStream) : Parsed := .ofCursor (.ofStream s) []

def Parsed.ofString (source : String) : Parsed := .ofStream (.ofString source)

/-- The program that a text denotes, or everything that is wrong with it. -/
def Program.ofString (source : String) : Except (List Diagnostic) Program :=
  (Parsed.ofString source).toExcept

/-- Read one expression whose operators bind more tightly than `floor`, and
    report the cursor behind it and what is wrong. -/
def Expr.ofCursor (floor : Precedence) (c : Cursor) : Option Expr × Cursor × List Diagnostic :=
  let final := ParseState.finish ⟨.operand floor .alone, c, []⟩
  (final.expression?, final.cursor, final.diagnostics)

/-- How the text of a program reads: as the same program, as another one, or
    not at all. -/
inductive Reading where
  | same
  | different
  | rejected
deriving DecidableEq, Repr

/-- Read the text of a program again. -/
def Program.reread (p : Program) : Reading :=
  match Program.ofString p.render with
  | .ok q => if q = p then .same else .different
  | .error _ => .rejected

end Script
