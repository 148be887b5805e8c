import Lox.CommandLine.Call

namespace Lox.Main

/-!
# The program

Arguments, files and lines come from the system; what is done with them is decided
elsewhere.
-/

open CommandLine

/-- The exit code of a call that breaks off. -/
def exitFailure : UInt32 :=
  1

/-- What a path of the file system leads to. -/
def entryOfPath
    (path : String) :
    IO Entry := do
  try
    let bytes ← IO.FS.readBinFile path
    return .file bytes.toList
  catch error =>
    match error with
    | .noFileOrDirectory .. => return .missing
    | .inappropriateType .. => return .directory
    | _ => throw error

/-- Write what a call writes, and end with its exit code. -/
def finish :
    Option (Except Failure Ending) → IO UInt32
  | some (.ok ending) => do
      IO.print ending.output
      IO.eprint ending.errors
      return ending.exitCode.toUInt32
  | some (.error failure) => do
      IO.eprintln failure.message
      return exitFailure
  | none => return exitFailure

/-- Answer lines of the standard input until one of them, or the input, ends it. -/
partial def converse
    (desk : Console.Desk) :
    IO UInt32 := do
  IO.print prompt
  (← IO.getStdout).flush
  let line ← (← IO.getStdin).getLine
  if line.isEmpty then
    IO.print Console.farewellText
    return 0
  match inputLines line with
  | [] => return 0
  | text :: _ =>
      match Console.Command.ofLine text with
      | .quit => return 0
      | command =>
          match Console.perform? Evaluation.ampleBudget desk command with
          | none => return exitFailure
          | some (reply, next) =>
              IO.print reply
              converse next

/-- Carry out a call. -/
def run
    (arguments : List String) :
    IO UInt32 := do
  match taskOf arguments with
  | .finish ending => finish (some (.ok ending))
  | .converse debug => do
      IO.print (Console.bannerText debug)
      converse (.ofSession (Console.freshSession debug))
  | .work options path => do
      finish (workAt? Evaluation.ampleBudget options path (← entryOfPath path))

end Lox.Main

/-- Run the interpreter. -/
def main
    (arguments : List String) :
    IO UInt32 :=
  Lox.Main.run arguments
