import Playground.Bundle.Output
import Playground.Compile.Options
import Playground.Debouncer
import Playground.Editor
import Playground.Session.Fragment
/-!
# The state of a pipeline

A pipeline turns a session into displayed output. Edits go through a debouncer;
other changes take effect at once. Each becomes a trigger. A control loop takes
the triggers in order and starts a run for each one that asks the compiler
something new. Runs are numbered by generation and may overlap, and only the
run of the latest generation may publish.

Everything that can happen happens in jobs, which are done one after the other.
A job runs until it has to wait for something, and waking someone means to put
its job at the end of the line. So whatever is done by one job is done before
anybody else notices.
-/

namespace Playground

/-! ## What others see -/

/-- What the pipeline is busy with. -/
inductive Phase where
  | idle
  | debouncing
  | compiling
  | bundling
  | displaying
deriving DecidableEq, Repr

/-- The word for a phase. -/
def Phase.name : Phase → Text
  | .idle => text "idle"
  | .debouncing => text "debouncing"
  | .compiling => text "compiling"
  | .bundling => text "bundling"
  | .displaying => text "displaying"

/-- What is displayed. It is replaced as a whole. -/
structure Output where
  /-- The generation of the run that published it; none has the number 0. -/
  generation : Nat := 0
  modules : List Artifact := []
  bundles : List BundleChunk := []
  diagnostics : List Diagnostic := []
deriving DecidableEq, Repr

/-- One who is told of publications, and those that it has not read yet. -/
structure Subscription where
  isActive : Bool := true
  unread : List Nat := []
deriving DecidableEq, Repr

/-- How many unread publications a subscription holds. -/
def Subscription.capacity : Nat := 100

/-! ## Collaborators -/

/-- When a collaborator answers a call. -/
inductive Answer (α : Type) where
  | atOnce (answer : α)
  | after (ms : Nat) (answer : α)
  /-- When it is told to from outside. -/
  | onRequest

/-- What a pipeline works with. -/
structure Environment where
  rootDir : Text
  /-- The session that stands in for one that cannot be read. -/
  newSession : Session
  /-- What fragments begin with. -/
  lead : Text := Settings.fragmentLead
  /-- The compiler, if there is one. -/
  compiler : Option (CompileOptions → Answer CompilerReply)
  /-- The engine that bundles. -/
  engine : List Artifact → Answer EngineRun :=
    fun modules => .atOnce (EngineRun.ofLinker Settings.entryId modules)

/-- A call that a run waits for. -/
inductive Await (α : Type) where
  /-- The answer comes from outside, to the call of this number. -/
  | held (call : Nat)
  /-- The answer comes at this time. -/
  | at (time : Nat) (answer : α)
  /-- The answer is there, and the run is about to take it. -/
  | ready (answer : α)

/-- How to wait for an answer to a call of this number. -/
def Answer.await {α : Type} (now call : Nat) : Answer α → Await α
  | .atOnce answer => .ready answer
  | .after ms answer => .at (now + ms) answer
  | .onRequest => .held call

/-! ## Inside -/

/-- A reason to look whether something is to be compiled: the session and the settled text. -/
structure Trigger where
  session : Session
  source : Text
deriving DecidableEq, Repr

/-- One who waits for runs to end. -/
inductive Watcher where
  | waiter (i : Nat)
  /-- The one who halts the pipeline. -/
  | caller
deriving DecidableEq, Repr

/-- How far a run is. -/
inductive Stage where
  | created
  | compiling (await : Await CompilerReply)
  | bundling (result : CompileResult) (await : Await EngineRun)
  /-- It is about to learn that it was cancelled. -/
  | cancelled
  /-- It has ended, and it may have crashed. -/
  | finished (crash : Option Failure)

/-- A run in flight. -/
structure Run where
  generation : Nat
  options : CompileOptions
  stage : Stage := .created
  watchers : List Watcher := []

/-- How far someone is who waits for the pipeline to become idle. Each of the first three says with what
it goes on when it is served next. -/
inductive WaiterStage where
  | start
  /-- Nothing is held back any more. -/
  | settled
  /-- The triggers have been worked off. -/
  | consumed
  /-- This many runs are to end first. -/
  | gathering (runs : Nat)
  | done
deriving DecidableEq, Repr

/-- How the control loop is. -/
inductive Loop where
  | off
  | created
  | waiting
  | woken
  /-- It is about to learn that it was cancelled. -/
  | cancelled
  | ended
deriving DecidableEq, Repr

/-- How far halting is. -/
inductive Halt where
  /-- This many runs are to end first. -/
  | runs (n : Nat)
  | loop
deriving DecidableEq, Repr

/-- The jobs. -/
inductive Job where
  | loop
  | run (generation : Nat)
  /-- A run that has ended is taken off the list. -/
  | reap (generation : Nat)
  /-- Someone learns that a run has ended. -/
  | notice (watcher : Watcher)
  | waiter (i : Nat)
  /-- The one who halted the pipeline goes on. -/
  | caller
deriving DecidableEq, Repr

end Playground
