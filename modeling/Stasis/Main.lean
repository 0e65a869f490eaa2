import Stasis.Command

/-!
# The program

Reads the files that a command needs, carries the command out, and prints what it reports.
-/

open Stasis

/-- What the operating system says of a failure. -/
def systemMessage : IO.Error → String
  | .noFileOrDirectory _ code _ => "No such file or directory (os error " ++ toString code ++ ")"
  | e => toString e

/-- The content of a file, or why it cannot be read. -/
def readText (path : String) : IO (Except String String) := do
  try return .ok (← IO.FS.readFile path)
  catch e => return .error (systemMessage e)

/-- Writes a file; the answer tells why it cannot be written. -/
def writeText (path content : String) : IO (Except String Unit) := do
  try
    IO.FS.writeFile path content
    return .ok ()
  catch e => return .error (systemMessage e)

/-- Says why a command has failed. -/
def fail (cause : CommandError) : IO UInt32 := do
  IO.eprintln cause.message
  return failureCode.toUInt32

/-- The bound on the depth of all work. -/
def workBound : Nat := 1000000000

/-- Carries out a command. -/
def carryOut (c : Command) : IO UInt32 := do
  let files ← c.paths.mapM fun path => do return (path, ← readText path)
  let read (path : String) : Except String String :=
    (files.lookup path).getD (.error "it has not been read")
  match @Command.report read (engine workBound) c with
  | .error cause => fail cause
  | .ok report =>
    IO.print report.output
    match report.file with
    | none => return 0
    | some (path, content) =>
      match ← writeText path content with
      | .ok _ => return 0
      | .error cause => fail (.unwritable path cause)

def main (args : List String) : IO UInt32 := do
  match Command.parse args with
  | .error cause => fail cause
  | .ok c => carryOut c
