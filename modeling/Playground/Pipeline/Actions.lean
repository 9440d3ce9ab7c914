import Playground.Clockwork
import Playground.Pipeline.Runs
import Playground.Pipeline.Waiting
/-!
# Actions on a pipeline

Actions that follow each other immediately are done in one job. Only halting
takes more than one: the runs in flight are cancelled and end first, then the
control loop does, and the actions that follow come after that.
-/

namespace Playground.Pipeline

/-- Starts the control loop unless it is there. The first thing that it finds is a trigger. -/
def start (p : Pipeline) : Pipeline :=
  match p.loop with
  | .off => ({ p with loop := .created }.schedule [.loop]).trigger
  | _ => p

/-! ## Halting -/

/-- Cancels a run, which learns of it in its turn. -/
def cancelRun (p : Pipeline) (run : Run) : Pipeline :=
  match run.stage with
  | .created | .compiling (.ready _) | .bundling _ (.ready _) =>
    p.setStage run.generation .cancelled
  | .compiling _ | .bundling _ _ => p.resume run.generation .cancelled
  | .cancelled | .finished _ => p

/-- Cancels the control loop, which learns of it in its turn. -/
def haltLoop (p : Pipeline) : Pipeline :=
  match p.loop with
  | .off => { p with halt := none }
  | .waiting => { p with loop := .cancelled, halt := some .loop }.schedule [.loop]
  | .created | .woken | .cancelled | .ended => { p with loop := .cancelled, halt := some .loop }

/-- Begins to halt the pipeline. An edit that is held back is dropped. -/
def beginHalt (p : Pipeline) : Pipeline :=
  let p := p.dropEdit
  let p := p.runs.foldl cancelRun p
  if p.runs.isEmpty then p.haltLoop
  else { p with halt := some (.runs p.runs.length) }.watchRuns .caller

/-- The one who halts the pipeline learns that a run has ended. -/
def noticeCaller (p : Pipeline) : Pipeline :=
  match p.halt with
  | some (.runs (n + 2)) => { p with halt := some (.runs (n + 1)) }
  | some (.runs 1) => { p with halt := some (.runs 0) }.schedule [.caller]
  | _ => p

/-! ## Scripts -/

/-- Does an action that takes one job. Halting is none. -/
def act (p : Pipeline) : Action → Pipeline × Reply
  | .start => (p.start, .done)
  | .stop => (p, .done)
  | .edit source => p.edit source
  | .setOptions minify strategy transpile => p.setOptions minify strategy transpile
  | .setView view => p.setView view
  | .load fragment => p.load fragment
  | .reload => p.load p.fragment.current
  | .attach kind => (p.mount { kind }, .done)
  | .type editor source => p.typeInto editor source
  | .answerCompiler call reply => p.answerCompiler call reply
  | .answerEngine call run => p.answerEngine call run
  | .wait => (p.wait, .done)
  | .subscribe => (p.subscribe, .done)
  | .unsubscribe i => (p.unsubscribe i, .done)
  | .read i =>
    let (p, generations) := p.read i
    (p, .unread generations)
  | .setEncoder works => ({ p with encoderWorks := works }, .done)

/-- Notes what an action came to. -/
def note (p : Pipeline) (reply : Reply) : Pipeline :=
  { p with replies := p.replies ++ [(reply, p.phase)] }

/-- Does actions one after the other, as far as this job goes. -/
def proceed (p : Pipeline) : List Action → Pipeline
  | [] => { p with script := [] }
  | .stop :: rest =>
    let p := p.beginHalt
    match p.halt with
    | some _ => { p with script := rest }
    | none => (p.note .done).proceed rest
  | action :: rest =>
    let (p, reply) := p.act action
    (p.note reply).proceed rest

/-- Goes on after the pipeline has been halted. -/
def resumeScript (p : Pipeline) : Pipeline :=
  ({ p with halt := none }.note .done).proceed p.script

/-- What the one who halts the pipeline does when it is served. -/
def serveCaller (p : Pipeline) : Pipeline :=
  match p.halt with
  | some (.runs 0) =>
    let p := p.haltLoop
    match p.halt with
    | some _ => p
    | none => p.resumeScript
  | some .loop => { p with loop := .off }.resumeScript
  | _ => p

/-! ## Jobs and time -/

/-- Does a job. -/
def serve (p : Pipeline) : Job → Pipeline
  | .loop => p.serveLoop
  | .run generation => p.serveRun generation
  | .reap generation => p.reap generation
  | .notice (.waiter i) => p.noticeWaiter i
  | .notice .caller => p.noticeCaller
  | .waiter i => p.serveWaiter i
  | .caller => p.serveCaller

/-- Takes the edit that is due out of the debouncer. Its text is settled from now on. -/
def editDue? (p : Pipeline) : Option Pipeline :=
  (p.debouncer.take? p.now).map fun (source, debouncer) =>
    let p := { p with debouncer, settled := source }.trigger
    p.release p.debouncer.signal

/-- The next step: a job, or else a timer that is due. -/
def step? (p : Pipeline) : Option Pipeline :=
  match p.jobs with
  | job :: jobs => some ({ p with jobs }.serve job)
  | [] => p.editDue? <|> p.answerDue?

/-- When the next timer is due. -/
def due? (p : Pipeline) : Option Nat :=
  ((p.debouncer.due?).toList ++ p.runs.filterMap fun r => Stage.time? r.stage).min?

instance : Clockwork Pipeline where
  step? := step?
  now := now
  due? := due?
  setNow now p := { p with now }

/-- Does actions immediately after each other, and gives what each came to and the phase right after
it, once everything that follows from them has happened. -/
def run (p : Pipeline) (actions : List Action) : Pipeline × List (Reply × Phase) :=
  let p := Clockwork.settle ({ p with replies := [] }.proceed actions)
  (p, p.replies)

end Playground.Pipeline
