import Playground.Pipeline.Input
/-!
# Runs

A run calls the compiler and, when the options say so, the engine, and then
publishes. After each of the two calls it looks whether it is still the latest
run, and gives up if not. It also gives up when the compiler fails, and then
the same options may be tried again.
-/

namespace Playground.Pipeline

/-- Starts a run for a trigger that asks the compiler something new. -/
def dispatch (p : Pipeline) (trigger : Trigger) : Pipeline :=
  let options := p.optionsFor trigger
  if p.environment.compiler.isNone || p.latest = some options then p.settlePhase
  else
    let run : Run := { generation := p.generation + 1, options }
    { p with
      generation := run.generation
      latest := some options
      phase := .compiling
      runs := p.runs ++ [run] }.schedule [.run run.generation]

/-- Works off the queue. When nothing is left in it, those who wait for that are served. -/
def consume (p : Pipeline) : Pipeline :=
  match p.queue with
  | [] => p
  | queue =>
    let p := queue.foldl dispatch { p with queue := [] }
    { p with queueWaiting := [] }.schedule (p.queueWaiting.map .waiter)

/-- What the control loop does when it is served. -/
def serveLoop (p : Pipeline) : Pipeline :=
  match p.loop with
  | .created | .woken => { p.consume with loop := .waiting }
  | .cancelled => { p with loop := .ended }.schedule [.caller]
  | .off | .waiting | .ended => p

/-- Ends a run. Those who watch it learn of it after it is taken off the list. -/
def finish (p : Pipeline) (run : Run) (crash : Option Failure) : Pipeline :=
  let watchers := ((p.run? run.generation).map Run.watchers).getD []
  (p.setStage run.generation (.finished crash)).schedule
    (.reap run.generation :: watchers.map .notice)

/-- Shows the markers of some diagnostics in the editor that is mounted, if there is one. -/
def markDiagnostics (p : Pipeline) (diagnostics : List Diagnostic) : Except Text Pipeline :=
  match p.mounted with
  | none => .ok p
  | some i =>
    match p.editors[i]? with
    | none => .ok p
    | some editor =>
      (editor.mark diagnostics).map fun editor => { p with editors := p.editors.set i editor }

/-- Publishes what a run has found. An editor that breaks ends the run after the output is replaced. -/
def publish (p : Pipeline) (run : Run) (result : CompileResult) (bundles : List BundleChunk) :
    Pipeline :=
  let p := { p with
    phase := .displaying
    output := {
      generation := run.generation
      modules := result.modules
      bundles
      diagnostics := result.diagnostics } }
  match p.markDiagnostics result.diagnostics with
  | .error complaint => p.finish run (some (.broke complaint))
  | .ok p =>
    let p := p.notify run.generation
    { p with phase := if p.debouncer.isPending then .debouncing else .idle }.finish run none

/-- Goes on with a run whose engine has answered. Bundles that could not be made are left as they were. -/
def bundled (p : Pipeline) (run : Run) (result : CompileResult) (engineRun : EngineRun) :
    Pipeline :=
  let (chunks, records) := engineRun.outcome Settings.entryId
  let p := { p with log := p.log ++ records }
  if run.generation ≠ p.generation then p.finish run none
  else p.publish run result (chunks.getD p.output.bundles)

/-- Goes on with a run whose compiler has answered. -/
def compiled (p : Pipeline) (run : Run) (reply : CompilerReply) : Pipeline :=
  match reply.result with
  | .error failure =>
    let p := p.report (.failure
      (text "Compile run " ++ Text.ofNat run.generation ++ text " failed, keeping previous output")
      (.compile failure))
    let p := if run.generation = p.generation then { p with latest := none } else p
    p.finish run none
  | .ok result =>
    if run.generation ≠ p.generation then p.finish run none
    else if run.options.transpile then
      let call := p.builds
      let p := { p with phase := .bundling, builds := call + 1 }
      match (p.environment.engine result.modules).await p.now call with
      | .ready engineRun => p.bundled run result engineRun
      | await => p.setStage run.generation (.bundling result await)
    else p.publish run result []

/-- Begins a run with its call to the compiler. -/
def begin (p : Pipeline) (run : Run) : Pipeline :=
  match p.environment.compiler with
  | none => p.finish run none
  | some compiler =>
    let call := p.calls.length
    let p := { p with calls := p.calls ++ [run.options] }
    match (compiler run.options).await p.now call with
    | .ready reply => p.compiled run reply
    | await => p.setStage run.generation (.compiling await)

/-- What a run does when it is served. -/
def serveRun (p : Pipeline) (generation : Nat) : Pipeline :=
  match p.run? generation with
  | none => p
  | some run =>
    match run.stage with
    | .created => p.begin run
    | .compiling (.ready reply) => p.compiled run reply
    | .bundling result (.ready engineRun) => p.bundled run result engineRun
    | .cancelled => p.finish run none
    | _ => p

/-- Takes a run that has ended off the list. -/
def reap (p : Pipeline) (generation : Nat) : Pipeline :=
  let crash := match (p.run? generation).map Run.stage with
    | some (.finished crash) => crash
    | _ => none
  let p := { p with runs := p.runs.filter fun r => r.generation ≠ generation }
  let p := match crash with
    | some failure => p.report (.failure (text "Pipeline run crashed") failure)
    | none => p
  p.settlePhase

/-! ## Answers from outside -/

/-- A run that has its answer. -/
def resume (p : Pipeline) (generation : Nat) (stage : Stage) : Pipeline :=
  (p.setStage generation stage).schedule [.run generation]

/-- Answers a call to the compiler. -/
def answerCompiler (p : Pipeline) (call : Nat) (reply : CompilerReply) : Pipeline × Reply :=
  let waiting := p.runs.find? fun r => match r.stage with
    | .compiling (.held c) => c = call
    | _ => false
  match waiting with
  | some run => (p.resume run.generation (.compiling (.ready reply)), .done)
  | none => (p, .noSuchCall)

/-- Answers a call to the engine. -/
def answerEngine (p : Pipeline) (call : Nat) (engineRun : EngineRun) : Pipeline × Reply :=
  let waiting := p.runs.findSome? fun r => match r.stage with
    | .bundling result (.held c) => if c = call then some (r.generation, result) else none
    | _ => none
  match waiting with
  | some (generation, result) =>
    (p.resume generation (.bundling result (.ready engineRun)), .done)
  | none => (p, .noSuchCall)

/-! ## Answers that are due -/

/-- What a run goes on with at this time, if that is due. -/
def Stage.due? (now : Nat) : Stage → Option Stage
  | .compiling (.at time reply) => if time ≤ now then some (.compiling (.ready reply)) else none
  | .bundling result (.at time run) =>
    if time ≤ now then some (.bundling result (.ready run)) else none
  | _ => none

/-- When a run goes on, if the time is known. -/
def Stage.time? : Stage → Option Nat
  | .compiling (.at time _) => some time
  | .bundling _ (.at time _) => some time
  | _ => none

/-- Gives a run the answer that is due. -/
def answerDue? (p : Pipeline) : Option Pipeline :=
  p.runs.findSome? fun r => (Stage.due? p.now r.stage).map (p.resume r.generation)

end Playground.Pipeline
