import Playground.Pipeline.Action
import Playground.Pipeline.State
/-!
# Pipelines

The pipeline as a value, and the small operations of which everything that
happens to it is made up.
-/

namespace Playground

/-- A pipeline. -/
structure Pipeline where
  environment : Environment
  now : Nat := 0
  session : Session
  /-- The document of the last trigger, which an edit in the debouncer has not reached yet. -/
  settled : Text
  output : Output := {}
  phase : Phase := .idle
  /-- The generation of the latest run. -/
  generation : Nat := 0
  /-- What the latest run asks, unless it failed. -/
  latest : Option CompileOptions := none
  /-- The edit that is held back. Waiters are known by their number. -/
  debouncer : Debouncer Text Nat
  fragment : Fragment.Holder
  encoderWorks : Bool := true
  editors : List (Editor Unit) := []
  /-- The editor that shows the markers: the one mounted last. -/
  mounted : Option Nat := none
  /-- The triggers that are to be worked off. -/
  queue : List Trigger := []
  /-- The waiters that wait until the triggers have been worked off. -/
  queueWaiting : List Nat := []
  loop : Loop := .off
  runs : List Run := []
  waiters : List WaiterStage := []
  halt : Option Halt := none
  /-- The actions that are to follow when the pipeline has been halted. -/
  script : List Action := []
  /-- What the actions so far came to, and the phase right after each. -/
  replies : List (Reply × Phase) := []
  /-- The jobs that are to be done, in order. -/
  jobs : List Job := []
  /-- The calls to the compiler. -/
  calls : List CompileOptions := []
  /-- The number of calls to the engine. -/
  builds : Nat := 0
  subscriptions : List Subscription := []
  log : List LogRecord := []

namespace Pipeline

/-- A pipeline whose session is read from a fragment. -/
def new (environment : Environment) (window : Int) (fragment : Text) :
    Except NegativeWindow Pipeline :=
  let session := Fragment.decode environment.lead environment.newSession fragment
  (Debouncer.ofWindow window).map fun debouncer =>
    { environment, session, settled := session.source, debouncer, fragment := { current := fragment } }

/-- Puts jobs at the end of the line. -/
def schedule (p : Pipeline) (jobs : List Job) : Pipeline :=
  { p with jobs := p.jobs ++ jobs }

/-- Adds a record to the log. -/
def report (p : Pipeline) (record : LogRecord) : Pipeline :=
  { p with log := p.log ++ [record] }

/-- The options that a trigger asks for. -/
def optionsFor (p : Pipeline) (trigger : Trigger) : CompileOptions :=
  .ofSession p.environment.rootDir trigger.session trigger.source

/-- Puts a trigger for the settled text into the queue, and wakes the control loop. -/
def trigger (p : Pipeline) : Pipeline :=
  let next : Trigger := { session := p.session, source := p.settled }
  let p := { p with queue := p.queue ++ [next] }
  match p.loop with
  | .waiting => { p with loop := .woken }.schedule [.loop]
  | _ => p

/-- Takes over what became of the debouncer, and serves those whom it released. -/
def release (p : Pipeline) (outcome : Debouncer Text Nat × List Nat) : Pipeline :=
  { p with debouncer := outcome.1 }.schedule (outcome.2.map .waiter)

/-- Drops the edit that is held back. -/
def dropEdit (p : Pipeline) : Pipeline :=
  p.release p.debouncer.cancel

/-- The phase when no run has anything to say about it. -/
def settlePhase (p : Pipeline) : Pipeline :=
  if p.debouncer.isPending then { p with phase := .debouncing }
  else if p.runs.isEmpty then { p with phase := .idle }
  else p

/-- The run of a generation that is in flight. -/
def run? (p : Pipeline) (generation : Nat) : Option Run :=
  p.runs.find? fun r => r.generation = generation

/-- Changes how far a run is. -/
def setStage (p : Pipeline) (generation : Nat) (stage : Stage) : Pipeline :=
  { p with
    runs := p.runs.map fun r => if r.generation = generation then { r with stage } else r }

/-- Changes how far a waiter is. -/
def setWaiter (p : Pipeline) (i : Nat) (stage : WaiterStage) : Pipeline :=
  { p with waiters := p.waiters.set i stage }

/-- Lets someone watch all runs in flight; of a run that has ended already it learns in its turn. -/
def watchRuns (p : Pipeline) (watcher : Watcher) : Pipeline :=
  let watch (r : Run) : Run := match r.stage with
    | .finished _ => r
    | _ => { r with watchers := r.watchers ++ [watcher] }
  let ended := p.runs.filter fun r => match r.stage with
    | .finished _ => true
    | _ => false
  { p with runs := p.runs.map watch }.schedule (ended.map fun _ => .notice watcher)

/-- The artifacts of the selected view: the bundles, or else the modules. -/
def displayed (p : Pipeline) : List BundleChunk ⊕ List Artifact :=
  match p.session.view with
  | .bundles => .inl p.output.bundles
  | .modules => .inr p.output.modules

end Pipeline

end Playground
