/-
  Script/CommandLine.lean
  =======================
  **The command line.**

  The arguments say what to do: talk, run a file, or print help or the version.
  What is done depends only on the arguments, on the file that is to be run and
  on the standard input, so it is a function of them.
-/
import Script.Repl
import Script.Text.Input

namespace Script

inductive Command where
  | converse
  | runFile (path : String)
  | missingFile
  | help
  | version
  | unknownOption (option : String)
deriving DecidableEq, Repr

/-- Read the arguments.  Arguments that are not needed are passed over. -/
def Command.ofArgs : List String → Command
  | [] => .converse
  | ["run"] => .missingFile
  | "run" :: path :: _ => .runFile path
  | arg :: _ =>
    match arg with
    | "repl" => .converse
    | "help" | "--help" | "-h" => .help
    | "version" | "--version" | "-v" => .version
    | _ => if arg.toList.head? = some '-' then .unknownOption arg else .runFile arg

/-- What the command `help` prints. -/
def commandHelp : String :=
  "Bamboo\n" ++
  "A small expression-oriented scripting language\n" ++
  "Version " ++ version ++ "\n\n" ++
  "USAGE:\n" ++
  "  bamboo                   Start interactive REPL\n" ++
  "  bamboo run <file.bam>    Execute a Bamboo file\n" ++
  "  bamboo <file.bam>        Same as run\n" ++
  "  bamboo repl              Start interactive REPL\n" ++
  "  bamboo help              Show this help message\n" ++
  "  bamboo version           Show version\n\n" ++
  "ENVIRONMENT:\n" ++
  "  BAMBOO_LOG=debug         Log filter (falls back to RUST_LOG)\n\n" ++
  "LANGUAGE FEATURES:\n" ++
  "  let x = 10;                      Binding\n" ++
  "  x = x + 1;                       Rebind nearest binding\n" ++
  "  let add = fn(a, b) \x7b a + b \x7d;    Function literal\n" ++
  "  if (x > 5) \x7b 1 \x7d else \x7b 2 \x7d      Conditional expression\n" ++
  "  while (x < 10) \x7b x = x + 1; \x7d    Loop\n" ++
  "  [1, 2, 3][0]  \x7b\"k\": 1\x7d[\"k\"]     Arrays and hashes\n"

inductive FileError where
  | missing
  | directory
  | notDirectory
  | undecodable
  | other (message : String)
deriving DecidableEq, Repr

def FileError.message : FileError → String
  | .missing => "No such file or directory (os error 2)"
  | .directory => "Is a directory (os error 21)"
  | .notDirectory => "Not a directory (os error 20)"
  | .undecodable => "stream did not contain valid UTF-8"
  | .other message => message

def fileText (contents : Except FileError ByteArray) : Except FileError String :=
  match contents with
  | .error e => .error e
  | .ok bytes =>
    match decodeText? bytes with
    | some text => .ok text
    | none => .error .undecodable

/-- Run the text of a file on its own. -/
def runText [Digesting] [Escaping] (fuel : Nat) (source : String) : Option (Written × Nat) :=
  (evalText fuel source).map fun result =>
    match result with
    | .error ds => (writtenDiagnostics source ds, 1)
    | .ok ⟨.value v, printed⟩ =>
      (.out printed ++ writtenValue "" v, if v.isError then 1 else 0)
    | .ok ⟨.exit code, printed⟩ => (.out printed, exitStatus code)

def runFile [Digesting] [Escaping] (fuel : Nat) (path : String)
    (contents : Except FileError ByteArray) : Option (Written × Nat) :=
  match fileText contents with
  | .error e =>
    some (.err ("error: cannot read file '" ++ path ++ "': " ++ e.message ++ "\n"), 1)
  | .ok source => runText fuel source

/-- Do what the arguments ask for: what is written, and the exit status. -/
def commandLine [Digesting] [Escaping] (fuel : Nat) (args : List String)
    (read : String → Except FileError ByteArray) (input : ByteArray) : Option (Written × Nat) :=
  match Command.ofArgs args with
  | .converse =>
    (Session.new.converse fuel (inputLines input)).map fun (written, status) =>
      (.out banner ++ written, status)
  | .runFile path => runFile fuel path (read path)
  | .missingFile =>
    some (.err "error: missing file argument\nUsage: bamboo run <file.bam>\n", 1)
  | .help => some (.out commandHelp, 0)
  | .version => some (.out ("Bamboo " ++ version ++ "\n"), 0)
  | .unknownOption option =>
    some (⟨commandHelp, "error: unknown option '" ++ option ++ "'\n"⟩, 1)

end Script
