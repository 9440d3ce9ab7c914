import Playground.Proofs.Pipeline.Course
import Playground.Proofs.Pipeline.Operations

/-!
# The core of a pipeline

Most of what a pipeline carries only looks on: the phase, the log, the
editors, the subscriptions, and those who wait until it is idle. The core is
the rest, that is whatever has a say in what is compiled and displayed, and in
how halting goes. The jobs of those who look on are left out of the core's
line, and of the watchers of a run only the one who halts the pipeline is
kept.

Each operation of a pipeline is given once, by what it does to the core. Those
that only look on leave it alone, and the others come out as operations of the
core itself.
-/

namespace Playground

/-- Whether a run goes on, that is has not ended and is not about to. -/
def Stage.isLive : Stage → Bool
  | .cancelled | .finished _ => false
  | _ => true

/-- A run, of whose watchers only the one who halts the pipeline is kept. -/
def Run.forCaller (r : Run) : Run :=
  { r with watchers := r.watchers.filter (· = .caller) }

/-- Whether a job has a say. A run's own job does not: what it does is up to
the stage of the run. -/
def Job.isCore : Job → Bool
  | .loop | .reap _ | .notice .caller | .caller => true
  | .run _ | .notice (.waiter _) | .waiter _ => false

/-- What has a say in what is compiled and displayed. -/
structure Core where
  environment : Environment
  session : Session
  settled : Text
  /-- The edit that is held back, and when it is due. -/
  held : Option (Nat × Text)
  queue : List Trigger
  loop : Loop
  halt : Option Halt
  script : List Action
  generation : Nat
  latest : Option CompileOptions
  output : Output
  runs : List Run
  jobs : List Job
  calls : List CompileOptions
  builds : Nat

/-- The core of a pipeline. -/
def Pipeline.core (p : Pipeline) : Core where
  environment := p.environment
  session := p.session
  settled := p.settled
  held := p.debouncer.held
  queue := p.queue
  loop := p.loop
  halt := p.halt
  script := p.script
  generation := p.generation
  latest := p.latest
  output := p.output
  runs := p.runs.map Run.forCaller
  jobs := p.jobs.filter Job.isCore
  calls := p.calls
  builds := p.builds

/-! ## The operations of the core -/

namespace Core

/-- The options that a trigger asks for. -/
def optionsFor (c : Core) (trigger : Trigger) : CompileOptions :=
  .ofSession c.environment.rootDir trigger.session trigger.source

/-- Puts a trigger for the settled text into the queue, and wakes the loop. -/
def trigger (c : Core) : Core :=
  let c : Core := { c with queue := c.queue ++ [⟨c.session, c.settled⟩] }
  match c.loop with
  | .waiting => { c with loop := .woken, jobs := c.jobs ++ [.loop] }
  | _ => c

/-- Changes how far a run is. -/
def setStage (c : Core) (generation : Nat) (stage : Stage) : Core :=
  { c with
    runs := c.runs.map fun r =>
      if r.generation = generation then { r with stage } else r }

/-- Starts a run that asks for some options. -/
def mint (c : Core) (options : CompileOptions) : Core :=
  { c with
    generation := c.generation + 1
    latest := some options
    runs := c.runs ++ [{ generation := c.generation + 1, options }] }

/-- Starts a run for a trigger that asks the compiler something new. -/
def dispatch (c : Core) (trigger : Trigger) : Core :=
  if c.environment.compiler.isNone ∨ c.latest = some (c.optionsFor trigger) then c
  else c.mint (c.optionsFor trigger)

/-- Those who watch the run of a generation. -/
def watchersOf (c : Core) (generation : Nat) : List Watcher :=
  ((c.runs.find? fun r => r.generation = generation).map Run.watchers).getD []

/-- Ends the run of a generation. -/
def finish (c : Core) (generation : Nat) (crash : Option Failure) : Core :=
  { c.setStage generation (.finished crash) with
    jobs := c.jobs ++ .reap generation :: (c.watchersOf generation).map .notice }

/-- Ends the run of a generation because the compiler failed. If it is the
latest, the same options may be tried again. -/
def fail (c : Core) (generation : Nat) : Core :=
  { c with
    latest := if generation = c.generation then none else c.latest
    }.finish generation none

/-- Publishes what a run has found, and ends it. -/
def publish (c : Core) (generation : Nat) (result : CompileResult)
    (bundles : List BundleChunk) (crash : Option Failure) : Core :=
  { c with
    output := {
      generation
      modules := result.modules
      bundles
      diagnostics := result.diagnostics } }.finish generation crash

/-- Takes the run of a generation off the list. -/
def strike (c : Core) (generation : Nat) : Core :=
  { c with runs := c.runs.filter fun r => r.generation ≠ generation }

/-- Cancels the runs of a list that go on. -/
def cancelRuns (c : Core) (runs : List Run) : Core :=
  { c with
    runs := c.runs.map fun r =>
      if runs.any fun s => s.generation = r.generation && s.stage.isLive then
        { r with stage := .cancelled }
      else r }

/-- Lets the one who halts the pipeline watch all runs. -/
def watch (c : Core) : Core :=
  { c with
    runs := c.runs.map fun r =>
      if r.stage.isOver then r else { r with watchers := r.watchers ++ [.caller] }
    jobs := c.jobs ++ (c.runs.filter fun r => r.stage.isOver).map fun _ =>
      .notice .caller }

/-- Cancels the control loop. -/
def haltLoop (c : Core) : Core :=
  match c.loop with
  | .off => { c with halt := none }
  | .waiting =>
    { c with loop := .cancelled, halt := some .loop, jobs := c.jobs ++ [.loop] }
  | _ => { c with loop := .cancelled, halt := some .loop }

/-- Begins to halt the pipeline. -/
def beginHalt (c : Core) : Core :=
  let c : Core := { c with held := none }.cancelRuns c.runs
  if c.runs.isEmpty then c.haltLoop
  else { c with halt := some (.runs c.runs.length) }.watch

/-- The one who halts the pipeline learns that a run has ended. -/
def notice (c : Core) : Core :=
  match c.halt with
  | some (.runs (n + 2)) => { c with halt := some (.runs (n + 1)) }
  | some (.runs 1) =>
    { c with halt := some (.runs 0), jobs := c.jobs ++ [.caller] }
  | _ => c

/-- The one who halts the pipeline goes on. -/
def resume (c : Core) : Core :=
  match c.halt with
  | some (.runs 0) => c.haltLoop
  | some .loop => { c with loop := .off, halt := none }
  | _ => c

/-! Each operation leaves most of the core alone. What it may change is named
here, and whatever is not named stays as it is. To the line of jobs an operation
only adds. -/

theorem trigger_frame (c : Core) : ∃ loop more, (∀ job ∈ more, job = Job.loop) ∧
    c.trigger = { c with
      queue := c.queue ++ [⟨c.session, c.settled⟩], loop, jobs := c.jobs ++ more } := by
  simp only [trigger]
  split
  · exact ⟨_, [.loop], fun _ => List.eq_of_mem_singleton, rfl⟩
  · exact ⟨c.loop, [], by simp, by simp⟩

theorem dispatch_frame (c : Core) (trigger : Trigger) :
    ∃ generation latest runs,
      c.dispatch trigger = { c with generation, latest, runs } := by
  unfold dispatch
  split
  · exact ⟨_, _, _, rfl⟩
  · exact ⟨_, _, _, rfl⟩

theorem foldl_dispatch_frame (queue : List Trigger) (c : Core) :
    ∃ generation latest runs,
      queue.foldl dispatch c = { c with generation, latest, runs } := by
  induction queue generalizing c with
  | nil => exact ⟨_, _, _, rfl⟩
  | cons trigger rest ih =>
      obtain ⟨_, _, _, hc⟩ := dispatch_frame c trigger
      obtain ⟨_, _, _, hd⟩ := ih (c.dispatch trigger)
      rw [List.foldl_cons, hd, hc]
      exact ⟨_, _, _, rfl⟩

theorem haltLoop_frame (c : Core) : ∃ loop halt more,
    (∀ job ∈ more, job = Job.loop) ∧
      c.haltLoop = { c with loop, halt, jobs := c.jobs ++ more } := by
  unfold haltLoop
  split
  · exact ⟨c.loop, none, [], by simp, by simp⟩
  · exact ⟨_, _, [.loop], fun _ => List.eq_of_mem_singleton, rfl⟩
  · exact ⟨.cancelled, some .loop, [], by simp, by simp⟩

theorem notice_frame (c : Core) : ∃ halt more,
    (∀ job ∈ more, job = Job.caller) ∧
      c.notice = { c with halt, jobs := c.jobs ++ more } := by
  unfold notice
  split
  · next n _ => exact ⟨some (.runs (n + 1)), [], by simp, by simp⟩
  · exact ⟨_, [.caller], fun _ => List.eq_of_mem_singleton, rfl⟩
  · exact ⟨c.halt, [], by simp, by simp⟩

theorem resume_frame (c : Core) : ∃ loop halt more,
    (∀ job ∈ more, job = Job.loop) ∧
      c.resume = { c with loop, halt, jobs := c.jobs ++ more } := by
  unfold resume
  split
  · exact haltLoop_frame c
  · exact ⟨.off, none, [], by simp, by simp⟩
  · exact ⟨c.loop, c.halt, [], by simp, by simp⟩

/-- As long as runs are waited for, the one who halts the pipeline does not go on. -/
theorem resume_of_runs {c : Core} {n : Nat} (h : c.halt = some (.runs (n + 1))) :
    c.resume = c := by
  simp only [resume, h]

theorem watch_frame (c : Core) : ∃ (watchers : Run → List Watcher) (more : List Job),
    (∀ job ∈ more, job = .notice .caller) ∧ c.watch = { c with
      runs := c.runs.map fun r => { r with watchers := watchers r }
      jobs := c.jobs ++ more } := by
  let watchers (r : Run) : List Watcher :=
    if r.stage.isOver then r.watchers else r.watchers ++ [.caller]
  have hw : (fun r : Run => if r.stage.isOver then r
      else { r with watchers := r.watchers ++ [.caller] }) =
      fun r => { r with watchers := watchers r } := by
    funext r
    simp only [watchers]
    split <;> rfl
  refine ⟨watchers, (c.runs.filter fun r => r.stage.isOver).map fun _ =>
    .notice .caller, ?_, ?_⟩
  · intro job hjob
    obtain ⟨_, _, rfl⟩ := List.mem_map.mp hjob
    rfl
  · rw [watch, hw]

/-- The runs when halting begins: those that go on are cancelled, and all that
have not ended are watched by the one who halts the pipeline. -/
theorem beginHalt_frame (c : Core) :
    ∃ (loop : Loop) (halt : Option Halt) (watchers : Run → List Watcher)
      (more : List Job),
    (∀ job ∈ more, job = Job.loop ∨ job = .notice .caller) ∧
      c.beginHalt = { c.cancelRuns c.runs with
        held := none, loop, halt, jobs := c.jobs ++ more
        runs := (c.cancelRuns c.runs).runs.map fun r =>
          { r with watchers := watchers r } } := by
  simp only [beginHalt]
  split
  · obtain ⟨loop, halt, more, hmore, h⟩ :=
      haltLoop_frame ({ c with held := none }.cancelRuns c.runs)
    refine ⟨loop, halt, Run.watchers, more, fun job hj => .inl (hmore job hj), ?_⟩
    rw [h, List.map_id'' fun _ => rfl]
    rfl
  · obtain ⟨watchers, more, hmore, h⟩ := watch_frame
      { ({ c with held := none }.cancelRuns c.runs) with
        halt := some (.runs (c.cancelRuns c.runs).runs.length) }
    exact ⟨_, _, watchers, more, fun job hj => .inr (hmore job hj), h⟩

end Core

/-! ## Operations of a pipeline on its core -/

namespace Pipeline

variable {p : Pipeline}

theorem mem_core_runs {r : Run} (h : r ∈ p.runs) : r.forCaller ∈ p.core.runs :=
  List.mem_map_of_mem h

theorem exists_of_mem_core_runs {r : Run} (h : r ∈ p.core.runs) :
    ∃ s ∈ p.runs, s.generation = r.generation ∧ s.options = r.options ∧
      s.stage = r.stage := by
  obtain ⟨s, hs, rfl⟩ := List.mem_map.mp h
  exact ⟨s, hs, rfl, rfl, rfl⟩

theorem core_runs_eq_nil : p.core.runs = [] ↔ p.runs = [] :=
  List.map_eq_nil_iff

@[simp] theorem filter_waiter_jobs (ids : List Nat) :
    (ids.map Job.waiter).filter Job.isCore = [] := by
  induction ids with
  | nil => rfl
  | cons _ _ ih => exact ih

@[simp] theorem filter_notice_jobs (watchers : List Watcher) :
    (watchers.map Job.notice).filter Job.isCore =
      (watchers.filter (· = .caller)).map .notice := by
  induction watchers with
  | nil => rfl
  | cons w ws ih =>
      cases w with
      | waiter _ => exact ih
      | caller => exact congrArg (Job.notice .caller :: ·) ih

@[simp] theorem core_schedule (p : Pipeline) (jobs : List Job) :
    (p.schedule jobs).core =
      { p.core with jobs := p.core.jobs ++ jobs.filter Job.isCore } := by
  simp [core, schedule]

theorem core_settlePhase (p : Pipeline) : p.settlePhase.core = p.core := by
  unfold settlePhase
  split
  · rfl
  · split <;> rfl

theorem core_trigger (p : Pipeline) : p.trigger.core = p.core.trigger := by
  unfold trigger Core.trigger
  cases h : p.loop <;> simp [core, schedule, h, Job.isCore]

@[simp] theorem core_release (p : Pipeline)
    (outcome : Debouncer Text Nat × List Nat) :
    (p.release outcome).core = { p.core with held := outcome.1.held } := by
  rw [release, core_schedule, filter_waiter_jobs, List.append_nil]
  rfl

theorem core_dropEdit (p : Pipeline) :
    p.dropEdit.core = { p.core with held := none } :=
  core_release p _

theorem core_setStage (p : Pipeline) (generation : Nat) (stage : Stage) :
    (p.setStage generation stage).core = p.core.setStage generation stage := by
  unfold setStage Core.setStage
  simp only [core, List.map_map, Core.mk.injEq, true_and, and_true]
  refine List.map_congr_left fun r _ => ?_
  by_cases h : r.generation = generation <;> simp [Run.forCaller, h]

theorem core_resume (p : Pipeline) (generation : Nat) (stage : Stage) :
    (p.resume generation stage).core = p.core.setStage generation stage := by
  rw [resume, core_schedule, core_setStage]
  simp [Job.isCore]

theorem core_finish (p : Pipeline) (run : Run) (crash : Option Failure) :
    (p.finish run crash).core = p.core.finish run.generation crash := by
  have hw : (((p.run? run.generation).map Run.watchers).getD []).filter
      (· = .caller) = p.core.watchersOf run.generation := by
    simp only [core, run?, Core.watchersOf, List.find?_map, Option.map_map]
    have hc : ((fun r : Run => decide (r.generation = run.generation)) ∘
        Run.forCaller) = fun r => decide (r.generation = run.generation) := rfl
    rw [hc]
    cases List.find? (fun r : Run => decide (r.generation = run.generation))
      p.runs <;> rfl
  rw [finish, core_schedule, core_setStage, Core.finish]
  simp only [List.filter_cons, Job.isCore, filter_notice_jobs, hw]
  rfl

/-! Those who wait until the pipeline is idle do not touch the core, and
neither do the subscriptions. -/

theorem watchRuns_eq (p : Pipeline) (watcher : Watcher) :
    p.watchRuns watcher =
      { p with
        runs := p.runs.map fun r : Run =>
          if r.stage.isOver then r else { r with watchers := r.watchers ++ [watcher] }
      }.schedule ((p.runs.filter fun r : Run => r.stage.isOver).map fun _ =>
        .notice watcher) := by
  dsimp only [watchRuns]
  congr
  funext r
  cases r.stage <;> simp [Stage.isOver]

theorem core_watchRuns_caller (p : Pipeline) :
    (p.watchRuns .caller).core = p.core.watch := by
  have hj : ((p.runs.filter fun r => r.stage.isOver).map fun _ =>
      Job.notice .caller).filter Job.isCore =
      (p.core.runs.filter fun r => r.stage.isOver).map fun _ =>
        .notice .caller := by
    have hk : ∀ job ∈ (p.runs.filter fun r => r.stage.isOver).map fun _ =>
        Job.notice .caller, job.isCore = true := by
      intro job hjob
      obtain ⟨_, _, rfl⟩ := List.mem_map.mp hjob
      rfl
    rw [List.filter_eq_self.mpr hk]
    simp only [core, List.filter_map, List.map_map]
    rfl
  rw [watchRuns_eq, core_schedule, hj, Core.watch]
  simp only [core, List.map_map, Core.mk.injEq, true_and, and_true]
  refine List.map_congr_left fun r _ => ?_
  cases h : r.stage.isOver <;> simp [Run.forCaller, h]

/-- Nobody is concerned but those who wait: they stand elsewhere, watch the runs, or are in
line. -/
def Attends (p q : Pipeline) : Prop :=
  ∃ (waiters : List WaiterStage) (waiting queueWaiting : List Nat)
    (watchers : Run → List Watcher) (more : List Job),
    (∀ r, (watchers r).filter (· = .caller) = r.watchers.filter (· = .caller)) ∧
    (∀ job ∈ more, ∃ i, job = .waiter i ∨ job = .notice (.waiter i)) ∧
    q = { p with
      waiters
      debouncer := { p.debouncer with waiting }
      queueWaiting
      runs := p.runs.map fun r => { r with watchers := watchers r }
      jobs := p.jobs ++ more }

theorem attends_of_places (p : Pipeline) (waiters : List WaiterStage)
    (waiting queueWaiting : List Nat) :
    Attends p { p with waiters, debouncer := { p.debouncer with waiting }, queueWaiting } := by
  refine ⟨waiters, waiting, queueWaiting, Run.watchers, [], fun _ => rfl, by simp, ?_⟩
  have runs : (p.runs.map fun r => { r with watchers := r.watchers }) = p.runs :=
    List.map_id'' (fun _ => rfl) p.runs
  rw [runs, List.append_nil]

theorem Attends.schedule {q : Pipeline} (h : Attends p q) (i : Nat) :
    Attends p (q.schedule [.waiter i]) := by
  obtain ⟨waiters, waiting, queueWaiting, watchers, more, callers, others, rfl⟩ := h
  refine ⟨waiters, waiting, queueWaiting, watchers, more ++ [.waiter i], callers, ?_, ?_⟩
  · intro job hj
    rcases List.mem_append.mp hj with hj | hj
    · exact others job hj
    · exact ⟨i, .inl (List.mem_singleton.mp hj)⟩
  · rw [← List.append_assoc]
    rfl

theorem attends_setWaiter (p : Pipeline) (i : Nat) (stage : WaiterStage) :
    Attends p (p.setWaiter i stage) :=
  attends_of_places p _ p.debouncer.waiting p.queueWaiting

theorem attends_holdUntilConsumed (p : Pipeline) (i : Nat) : Attends p (p.holdUntilConsumed i) :=
  attends_of_places p _ p.debouncer.waiting _

theorem attends_holdUntilSettled {i : Nat} {q : Pipeline} (h : p.holdUntilSettled i = some q) :
    Attends p q := by
  obtain ⟨-, rfl⟩ := holdUntilSettled_eq_some h
  exact attends_of_places p _ _ p.queueWaiting

theorem attends_watchRuns (p : Pipeline) (waiters : List WaiterStage) (i : Nat) :
    Attends p ({ p with waiters }.watchRuns (.waiter i)) := by
  refine ⟨waiters, p.debouncer.waiting, p.queueWaiting,
    fun r => if r.stage.isOver then r.watchers else r.watchers ++ [.waiter i],
    (p.runs.filter fun r => r.stage.isOver).map fun _ => .notice (.waiter i), ?_, ?_, ?_⟩
  · intro r
    cases h : r.stage.isOver <;> simp [h]
  · intro job hj
    obtain ⟨_, -, rfl⟩ := List.mem_map.mp hj
    exact ⟨i, .inr rfl⟩
  · have watched : (fun r : Run => if r.stage.isOver then r
        else { r with watchers := r.watchers ++ [.waiter i] }) = fun r =>
        { r with watchers := if r.stage.isOver then r.watchers else r.watchers ++ [.waiter i] } := by
      funext r
      split <;> rfl
    rw [watchRuns_eq, watched]
    rfl

theorem attends_passRuns (p : Pipeline) (i : Nat) : Attends p (p.passRuns i) := by
  unfold passRuns
  split
  · exact attends_watchRuns p _ i
  · split
    · exact attends_setWaiter p i .done
    · split
      · next q h => exact attends_holdUntilSettled h
      · split
        · exact attends_setWaiter p i .done
        · exact attends_holdUntilConsumed p i

theorem attends_passQueue (p : Pipeline) (i : Nat) : Attends p (p.passQueue i) := by
  unfold passQueue
  split
  · exact attends_setWaiter p i .done
  · split
    · exact attends_holdUntilConsumed p i
    · exact attends_passRuns p i

/-- To serve one who waits concerns nobody else. -/
theorem attends_serveWaiter (p : Pipeline) (i : Nat) : Attends p (p.serveWaiter i) := by
  unfold serveWaiter passDebouncer
  split
  · split
    · next q h => exact attends_holdUntilSettled h
    · exact attends_passQueue p i
  · exact attends_passQueue p i
  · exact attends_passRuns p i
  all_goals exact attends_of_places p p.waiters p.debouncer.waiting p.queueWaiting

theorem attends_noticeWaiter (p : Pipeline) (i : Nat) : Attends p (p.noticeWaiter i) := by
  unfold noticeWaiter
  split
  · exact attends_setWaiter p i _
  · exact (attends_setWaiter p i .start).schedule i
  · exact attends_of_places p p.waiters p.debouncer.waiting p.queueWaiting

/-- Those who wait have no say. -/
theorem Attends.core_eq {q : Pipeline} (h : Attends p q) : q.core = p.core := by
  obtain ⟨_, _, _, watchers, more, callers, others, rfl⟩ := h
  have runs : (p.runs.map fun r => { r with watchers := watchers r }).map Run.forCaller =
      p.runs.map Run.forCaller := by
    rw [List.map_map]
    refine List.map_congr_left fun r _ => ?_
    simp only [Function.comp, Run.forCaller, callers]
  have none : more.filter Job.isCore = [] := by
    refine List.filter_eq_nil_iff.mpr fun job hj => ?_
    obtain ⟨i, rfl | rfl⟩ := others job hj <;> simp [Job.isCore]
  simp only [core, runs, List.filter_append, none, List.append_nil]

theorem core_wait (p : Pipeline) : p.wait.core = p.core := by
  simp [wait, Job.isCore]
  rfl

/-! ## The control loop and the runs -/

theorem core_dispatch (p : Pipeline) (trigger : Trigger) :
    (p.dispatch trigger).core = p.core.dispatch trigger := by
  have hb : (p.environment.compiler.isNone || decide (p.latest =
      some (p.optionsFor trigger))) = true ↔
      p.core.environment.compiler.isNone ∨
        p.core.latest = some (p.core.optionsFor trigger) := by
    simp only [Bool.or_eq_true, decide_eq_true_eq]
    rfl
  unfold dispatch Core.dispatch
  by_cases h : p.environment.compiler.isNone || decide (p.latest =
      some (p.optionsFor trigger))
  · rw [if_pos (hb.mp h)]
    simp only [h, if_true]
    exact core_settlePhase p
  · rw [if_neg (fun h' => h (hb.mpr h'))]
    simp only [h]
    refine (core_schedule _ _).trans ?_
    simp [core, Core.mint, Core.optionsFor, optionsFor, Run.forCaller, Job.isCore]

theorem core_foldl_dispatch (queue : List Trigger) (p : Pipeline) :
    (queue.foldl dispatch p).core = queue.foldl Core.dispatch p.core := by
  induction queue generalizing p with
  | nil => rfl
  | cons trigger rest ih => rw [List.foldl_cons, ih, core_dispatch, List.foldl_cons]

theorem core_consume (p : Pipeline) :
    p.consume.core = p.queue.foldl Core.dispatch { p.core with queue := [] } := by
  unfold consume
  split
  · next h => simp [core, h]
  · rw [core_schedule, filter_waiter_jobs, List.append_nil]
    exact core_foldl_dispatch p.queue { p with queue := [] }

theorem core_reap (p : Pipeline) (generation : Nat) :
    (p.reap generation).core = p.core.strike generation := by
  have hr : ({ p with
      runs := p.runs.filter fun r => r.generation ≠ generation }).core =
      p.core.strike generation := by
    simp only [core, Core.strike, List.filter_map]
    rfl
  unfold reap
  rw [core_settlePhase, ← hr]
  split <;> rfl

/-- A publication replaces the output and ends the run, whether or not the
editor breaks. -/
theorem core_publish (p : Pipeline) (run : Run) (result : CompileResult)
    (bundles : List BundleChunk) :
    ∃ crash, (p.publish run result bundles).core =
      p.core.publish run.generation result bundles crash := by
  obtain ⟨_, h⟩ := publish_frame p run result bundles
  rw [h]
  exact ⟨_, core_finish _ _ _⟩

/-! ## Halting -/

theorem core_cancelRun (p : Pipeline) (run : Run) :
    (p.cancelRun run).core =
      if run.stage.isLive then p.core.setStage run.generation .cancelled
      else p.core := by
  unfold cancelRun
  split <;> simp_all [Stage.isLive, core_setStage, core_resume]

theorem core_foldl_cancelRun (runs : List Run) (p : Pipeline) :
    (runs.foldl cancelRun p).core = p.core.cancelRuns runs := by
  induction runs generalizing p with
  | nil => simp [Core.cancelRuns]
  | cons run rest ih =>
      rw [List.foldl_cons, ih, core_cancelRun, Core.cancelRuns, Core.cancelRuns]
      cases hl : run.stage.isLive with
      | false => simp [hl]
      | true =>
          simp only [if_true, Core.setStage, List.map_map, Core.mk.injEq,
            true_and, and_true]
          refine List.map_congr_left fun r _ => ?_
          by_cases hg : run.generation = r.generation
          · simp [hg, hl]
          · simp [hg, Ne.symm hg]

theorem core_haltLoop (p : Pipeline) : p.haltLoop.core = p.core.haltLoop := by
  unfold haltLoop Core.haltLoop
  cases h : p.loop <;> simp [core, schedule, h, Job.isCore]

theorem core_beginHalt (p : Pipeline) : p.beginHalt.core = p.core.beginHalt := by
  have hc : (p.dropEdit.runs.foldl cancelRun p.dropEdit).core =
      { p.core with held := none }.cancelRuns p.core.runs := by
    rw [core_foldl_cancelRun, core_dropEdit]
    have hr : p.dropEdit.runs = p.runs := rfl
    simp only [Core.cancelRuns, hr, core, List.any_map]
    rfl
  unfold beginHalt Core.beginHalt
  simp only [← hc]
  generalize p.dropEdit.runs.foldl cancelRun p.dropEdit = q
  have he : q.core.runs.isEmpty = q.runs.isEmpty := by simp [core]
  rw [he]
  split
  · exact core_haltLoop q
  · rw [core_watchRuns_caller]
    simp [core]

theorem core_noticeCaller (p : Pipeline) :
    p.noticeCaller.core = p.core.notice := by
  have hc : p.core.halt = p.halt := rfl
  unfold noticeCaller Core.notice
  match h : p.halt with
  | none | some .loop | some (.runs 0) => simp only [hc, h]
  | some (.runs 1) =>
      simp only [hc, h]
      exact core_schedule _ _
  | some (.runs (n + 2)) =>
      simp only [hc, h]
      rfl

theorem core_resumeScript {p : Pipeline} (h : p.script = []) :
    p.resumeScript.core = { p.core with halt := none } := by
  rw [resumeScript_eq h]
  rfl

theorem core_serveCaller {p : Pipeline} (h : p.script = []) :
    p.serveCaller.core = p.core.resume := by
  have hc : p.core.halt = p.halt := rfl
  unfold serveCaller Core.resume
  match hh : p.halt with
  | none | some (.runs (n + 1)) => simp only [hc, hh]
  | some .loop =>
      simp only [hc, hh]
      exact core_resumeScript (p := { p with loop := .off }) h
  | some (.runs 0) =>
      simp only [hc, hh]
      rw [← core_haltLoop]
      split
      · rfl
      · next hn =>
          have hcn : p.haltLoop.core.halt = none := hn
          rw [core_resumeScript ((script_haltLoop p).trans h), ← hcn]

end Pipeline

end Playground
