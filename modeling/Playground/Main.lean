import Playground.CommandLine.Execution
/-!
# The command line program

Reads its settings from the environment, runs the command that its arguments
give and writes what comes out. The program starts no other program, so to it
no compiler is ever there.
-/

open Playground

/-- The environment variables that are set, of those that are settings. -/
def environmentVariables : IO (List (Text × Text)) := do
  let names := ["COMPILER_COMMAND", "COMPILER_ROOT_DIR", "DEBOUNCE_MS", "DEFAULT_TRANSPILE",
    "DEFAULT_VIEW", "HOST", "PORT", "LOG_LEVEL"]
  let found ← names.mapM fun name => do
    return (← IO.getEnv name).map fun value => (text name, text value)
  return found.filterMap id

/-- What a file holds, if it can be read. -/
def readFile? (path : String) : IO (Option Bytes) := do
  try
    return some (← IO.FS.readBinFile path).toList
  catch _ => return none

/-- A text for the terminal. -/
def forTerminal (t : Text) : String :=
  String.ofList t.toCharsD

/-- Writes what a command has done, and gives its code. -/
def conclude (report : CommandLine.Report) : IO UInt32 := do
  IO.print (forTerminal report.out)
  for record in report.log do
    IO.eprintln (forTerminal record.message)
  IO.eprint (forTerminal report.complaints)
  match report.ending with
  | .exit code => return UInt32.ofNat code
  | .refused =>
    IO.eprintln "usage: playground [-h] [-v] (encode | decode | compile) ..."
    return 2
  | .broken mishap =>
    IO.eprintln (forTerminal mishap.message)
    return 1

/-- Runs the program. -/
def main (arguments : List String) : IO UInt32 := do
  match Settings.load (← environmentVariables) with
  | .error fault =>
    IO.eprintln (forTerminal fault.message)
    return 1
  | .ok settings =>
    let contents ← arguments.mapM fun path => do
      return (Path.tidy (text path), ← readFile? path)
    let surroundings : CommandLine.Surroundings := {
      settings
      file? := fun path => (contents.lookup path).join
      outcome := .missing }
    conclude (CommandLine.perform surroundings (arguments.map text))
