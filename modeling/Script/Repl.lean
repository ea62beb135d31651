/-
  Script/Repl.lean
  ================
  **The interactive prompt.**

  A conversation is a sequence of lines.  Four words are commands; blank lines
  are passed over; every other line is evaluated in the session that the lines
  before it made.  What a line is answered with depends only on that session
  and the line.

  This is the conversation over a pipe.  At a terminal the same texts are coloured,
  each line is asked for with a prompt and can be edited, and an interrupt is
  answered with `^C`.  Colours, prompt, editing, the history of lines and
  interrupts are left out.
-/
import Script.Session
import Script.Text.Space
import Script.Value.Render

namespace Script

def version : String := "0.2.0"

/-- The greeting of a conversation. -/
def banner : String :=
  "Bamboo " ++ version ++ " - a small scripting language\n" ++
  "Type exit to exit, help for help\n\n"

/-- The words with which a conversation ends. -/
def farewell : String := "Goodbye!\n"

/-- What the command `help` answers. -/
def promptHelp : String :=
  "REPL Commands:\n" ++
  "  exit, quit   Exit the REPL\n" ++
  "  clear        Forget every binding\n" ++
  "  help         Show this help\n\n" ++
  "Language Examples:\n" ++
  "  let x = 10;\n" ++
  "  let double = fn(n) \x7b n * 2 \x7d;\n" ++
  "  double(x)\n" ++
  "  let counter = 0; while (counter < 3) \x7b counter = counter + 1; \x7d\n" ++
  "  len(\"bamboo\")  first([1, 2])  push([1], 2)  keys(\x7b\"a\": 1\x7d)\n" ++
  "\n" ++
  "Builtins:\n" ++
  "  " ++ ", ".intercalate (Builtin.all.map Builtin.name) ++ "\n"

/-- What is written to the two output streams. -/
structure Written where
  stdout : String
  stderr : String
deriving DecidableEq, Repr, Inhabited

namespace Written

def nothing : Written := ⟨"", ""⟩

def out (text : String) : Written := ⟨text, ""⟩

def err (text : String) : Written := ⟨"", text⟩

def append (a b : Written) : Written := ⟨a.stdout ++ b.stdout, a.stderr ++ b.stderr⟩

instance : Append Written := ⟨append⟩

end Written

/-- Diagnostics shown against their source, one after the other. -/
def writtenDiagnostics [Escaping] (source : String) (ds : List Diagnostic) : Written :=
  .err (String.join (ds.map fun d => d.renderIn source ++ "\n"))

/-- The end of a process: the code is reduced to one byte. -/
def exitStatus (code : Int32) : Nat := (code.toInt % 256).toNat

/-- A value shown as a result: null is not shown, and an error goes to the
    standard error.  Other values follow `mark`. -/
def writtenValue (mark : String) : Value → Written
  | .null => .nothing
  | .error message => .err ((Value.error message).render ++ "\n")
  | v => .out (mark ++ v.render ++ "\n")

/-- What follows a line: the next line in a session, or the end. -/
inductive Next where
  | line (s : Session)
  | done (status : Nat)

/-- What a line is answered with, and what follows it. -/
structure Exchange where
  written : Written
  next : Next

def Session.answerLine [Digesting] [Escaping] (fuel : Nat) (s : Session) (line : String) :
    Option Exchange :=
  (s.eval fuel line).map fun (result, s') =>
    match result with
    | .error ds => ⟨writtenDiagnostics line ds, .line s'⟩
    | .ok ⟨.value v, printed⟩ => ⟨.out printed ++ writtenValue "=> " v, .line s'⟩
    | .ok ⟨.exit code, printed⟩ => ⟨.out printed, .done (exitStatus code)⟩

/-- Answer a line: a command, nothing, or something to evaluate.  To forget the
    bindings is to go on from a new root scope; what counts active calls and made
    functions stays as it is. -/
def Session.respond [Digesting] [Escaping] (fuel : Nat) (s : Session) (line : String) :
    Option Exchange :=
  match trimSpace line with
  | "" => some ⟨.nothing, .line s⟩
  | "exit" | "quit" => some ⟨.out farewell, .done 0⟩
  | "help" => some ⟨.out promptHelp, .line s⟩
  | "clear" => some ⟨.out "Environment cleared.\n", .line (.ofStore s.store)⟩
  | line => s.answerLine fuel line

/-- What a line that is not a text is answered with. -/
def undecodableLine : Written :=
  .err ("error: Io(Error \x7b kind: InvalidData, " ++
    "message: \"stream did not contain valid UTF-8\" \x7d)\n")

/-- Hold a conversation to its end: what was written after the greeting, and
    the exit status. -/
def Session.converse [Digesting] [Escaping] (fuel : Nat) (s : Session) :
    List (Option String) → Option (Written × Nat)
  | [] => some (.out farewell, 0)
  | none :: _ => some (undecodableLine, 0)
  | some line :: rest =>
    (s.respond fuel line).bind fun exchange =>
      match exchange.next with
      | .done status => some (exchange.written, status)
      | .line s' =>
        (s'.converse fuel rest).map fun (written, status) => (exchange.written ++ written, status)

end Script
