/-
  Script/Main.lean
  ================
  **The program.**

  Reads files and standard input, writes the two output streams, and leaves
  every decision to `Script.CommandLine` and `Script.Repl`.
-/
import Script.CommandLine

namespace Script

/-- Write to the two output streams. -/
def Written.put (w : Written) : IO Unit := do
  let stdout ← IO.getStdout
  let stderr ← IO.getStderr
  stdout.putStr w.stdout
  stdout.flush
  stderr.putStr w.stderr
  stderr.flush

/-- The contents of a file, or why it cannot be read. -/
def readContents (path : String) : IO (Except FileError ByteArray) := do
  try
    return .ok (← IO.FS.readBinFile path)
  catch e =>
    match e with
    | .noFileOrDirectory .. => return .error .missing
    -- A directory can be opened but not read; only the failure to open names the path.
    | .inappropriateType (some _) .. => return .error .notDirectory
    | .inappropriateType none .. => return .error .directory
    | e => return .error (.other (toString e))

/-- One line of standard input, without its line end; `none` at its end. -/
def nextLine (stdin : IO.FS.Stream) : IO (Option (Option String)) := do
  let mut bytes : ByteArray := .empty
  repeat
    let more ← stdin.read 1
    if more.isEmpty then break
    bytes := bytes ++ more
    if more.data[0]? == some lineFeed then break
  return (inputLines bytes).head?

/-- Converse over standard input, line by line. -/
partial def converse [Digesting] [Escaping] (stdin : IO.FS.Stream) (s : Session) :
    IO UInt32 := do
  match ← nextLine stdin with
  | none => Written.put (.out farewell); return 0
  | some none => Written.put undecodableLine; return 0
  | some (some line) =>
    match s.respond ampleFuel line with
    | none => return 1
    | some ⟨written, next⟩ =>
      written.put
      match next with
      | .line s' => converse stdin s'
      | .done status => return UInt32.ofNat status

/-- Do what the arguments ask for. -/
def perform [Digesting] [Escaping] (args : List String) : IO UInt32 := do
  match Command.ofArgs args with
  | .converse =>
    Written.put (.out banner)
    converse (← IO.getStdin) .new
  | .runFile path =>
    match runFile ampleFuel path (← readContents path) with
    | none => return 1
    | some (written, status) => written.put; return UInt32.ofNat status
  | _ =>
    match commandLine ampleFuel args (fun _ => .error .missing) .empty with
    | none => return 1
    | some (written, status) => written.put; return UInt32.ofNat status

end Script

/-- The entry point.  Texts are digested by the hash of the standard library.  What
    diagnostics put between quotes are digits, so no character is left to escape. -/
def main (args : List String) : IO UInt32 :=
  let _ : Script.Digesting := ⟨hash⟩
  let _ : Script.Escaping := ⟨fun _ => false⟩
  Script.perform args
