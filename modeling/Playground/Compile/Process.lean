import Playground.Compile.Failure
import Playground.Compile.Options
import Playground.Json.Parser
import Playground.Json.Printer
import Playground.Text.Encoding
/-!
# The compiler as a process

The compiler is a command that reads its options as JSON and prints its answer
as JSON. A command is a list of words; the process gets all of them. Something
may come in the way of starting the process, of waiting for its end and of
killing it. Only three things are dealt with on the spot: a program that does not
exist, a process that is gone when it is killed, and the cancellation of the
call, on which a process that was started is killed, once.

Whoever asks the compiler gets the result, a failure or the cancellation,
because everything else that comes in the way is made a failure in the end.
-/

namespace Playground

/-- What can come in the way of a call. -/
inductive Obstacle where
  /-- The call is cancelled. -/
  | cancelled
  /-- There is a reason why the compiler cannot answer. -/
  | failure (failure : CompileFailure)
  /-- A program is not found. -/
  | notFound (message : Text)
  /-- A process does not exist any more. -/
  | gone (message : Text)
  /-- Anything else breaks the call. -/
  | fault (fault : CallFault)
deriving DecidableEq, Repr

/-- How a process ends. -/
structure Exit where
  code : Int
  output : Bytes
  complaint : Bytes
deriving DecidableEq, Repr

/-- What waiting for the end of a process comes to, and what killing it comes to. -/
structure RunningProcess where
  finish : Except Obstacle Exit
  kill : Except Obstacle Unit := .ok ()

/-- A process that was started. -/
structure StartedProcess where
  words : List Text
  /-- What it was given to read. -/
  payload : Text
  /-- How often it was killed. -/
  kills : Nat := 0
deriving DecidableEq, Repr

/-- A call to the compiler: its answer and the process it started. -/
structure ProcessCall where
  answer : Except Obstacle Json
  started : Option StartedProcess

namespace ProcessCall

/-! ## The process -/

/-- A part of a call. It keeps track of the process. -/
abbrev Step (α : Type) := ExceptT Obstacle (StateM (Option StartedProcess)) α

/-- Starts a process. -/
def start (words : List Text) (payload : Text) (attempt : Except Obstacle RunningProcess) :
    Step RunningProcess := do
  let process ← liftExcept attempt
  set (some { words, payload : StartedProcess })
  return process

/-- Kills a process. -/
def kill (process : RunningProcess) : Step Unit := do
  modify fun started => started.map fun p => { p with kills := p.kills + 1 }
  liftExcept process.kill

/-- Waits for the end of a process, which is killed when the call is cancelled. -/
def finish (process : RunningProcess) : Step Exit :=
  tryCatch (liftExcept process.finish) fun
    | .cancelled => do
      tryCatch (kill process) fun
        | .gone _ => return ()
        | other => throw other
      throw .cancelled
    | other => throw other

/-- Has a command read a payload, given what starting its process comes to. -/
def exchange (command : List Text) (payload : Text) (attempt : Except Obstacle RunningProcess) :
    Step Exit :=
  match command with
  | [] => throw (.failure .noCommand)
  | program :: _ => do
    let process ← tryCatch (start command payload attempt) fun
      | .notFound _ => throw (.failure (.notInstalled program))
      | other => throw other
    finish process

/-! ## The answer -/

/-- The answer that a compiler's output stands for. -/
def readOutput (output : Bytes) : Except Obstacle Json :=
  match Encoding.decode output with
  | none => .error (.failure .notJson)
  | some document =>
    match Json.parse document with
    | .ok raw => .ok raw
    | .error .malformed | .error .tooLong => .error (.failure .notJson)
    | .error (.tooDeep inArray) => .error (.fault (.tooDeep inArray))

/-- The answer of a process that ended. -/
def readExit (command : List Text) (exit : Exit) : Except Obstacle Json :=
  if exit.code ≠ 0 then
    .error (.failure (.exited command exit.code (Utf8.decodeLossy exit.complaint).trim))
  else readOutput exit.output

/-- Calls the compiler whose command is `command`, given what starting its process comes to. -/
def conduct (command : List Text) (options : CompileOptions)
    (attempt : Except Obstacle RunningProcess) : ProcessCall :=
  let payload := Json.render .spaced options.toJson
  let (exit, started) := (exchange command payload attempt).run none
  { answer := exit.bind (readExit command), started }

/-! ## What comes of a call -/

/-- Makes a failure of what came in the way, unless it is one already or the call was cancelled. -/
def contain : Obstacle → Obstacle
  | .cancelled => .cancelled
  | .failure failure => .failure failure
  | .notFound message | .gone message => .failure (.call (.broke message))
  | .fault fault => .failure (.call fault)

/-- What whoever asked the compiler gets. -/
def ending (call : ProcessCall) : Except Obstacle CompileResult :=
  match call.answer with
  | .ok raw => (CompileResult.ofJson raw).mapError fun n => .failure (.malformed n)
  | .error obstacle => .error (contain obstacle)

/-- The compiler's reply; none when the call was cancelled. -/
def reply (call : ProcessCall) : Option CompilerReply :=
  match call.answer with
  | .ok raw => some (.answered raw)
  | .error .cancelled => none
  | .error (.failure failure) => some (.failed failure)
  | .error (.notFound message) | .error (.gone message) => some (.broke (.broke message))
  | .error (.fault fault) => some (.broke fault)

/-- How often a process was killed. -/
def kills (call : ProcessCall) : Nat :=
  call.started.elim 0 StartedProcess.kills

end ProcessCall

/-! ## Outcomes -/

/-- What becomes of an attempt to run a command. -/
inductive ProcessOutcome where
  /-- There is no such program. -/
  | missing
  /-- The program may not be started. -/
  | denied
  /-- It ends. -/
  | ended (code : Int) (output complaint : Bytes)
  /-- It does not end until the call is cancelled. -/
  | hung
deriving DecidableEq, Repr

/-- What starting the process comes to. -/
def ProcessOutcome.attempt : ProcessOutcome → Except Obstacle RunningProcess
  | missing => .error (.notFound [])
  | denied => .error (.fault (.denied (text "denied")))
  | ended code output complaint => .ok { finish := .ok ⟨code, output, complaint⟩ }
  | hung => .ok { finish := .error .cancelled }

namespace ProcessCall

/-- Calls the compiler whose command is `command`. -/
def run (command : List Text) (options : CompileOptions) (outcome : ProcessOutcome) : ProcessCall :=
  conduct command options outcome.attempt

/-- Whether a command can be run. -/
def available (command : List Text) (outcome : ProcessOutcome) : Bool :=
  !command.isEmpty && outcome ≠ .missing

end ProcessCall

end Playground
