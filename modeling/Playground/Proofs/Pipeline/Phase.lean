import Playground.Proofs.Pipeline.Idleness
import Playground.Proofs.Pipeline.Outlook
import Playground.Proofs.Pipeline.Requests

/-!
# What the phase tells

The phase is one variable that is written from six places, and no place sees everything.
What a move does to it is nevertheless one of five things: either nothing changes that the
phase is judged by, or the phase is set anew, and then what it tells is true when it is set.
`shift_after` says so, and that the phase is truthful in every course is shown of the five.

That a run has ended is told of it by two facts that are known already. The run that has
published is over, and a run that is over stays so.
-/

namespace Playground

namespace Pipeline

variable {p q r : Pipeline}

/-- Nothing is held back, queued or in flight, and the control loop takes what will come. -/
structure Resting (p : Pipeline) : Prop where
  free : p.debouncer.isPending = false
  empty : p.queue = []
  ended : p.runs = []
  goes : p.loop = .created ∨ p.loop = .waiting ∨ p.loop = .woken

/-- What the phase tells. -/
structure Truthful (p : Pipeline) : Prop where
  idle : p.phase = .idle → p.debouncer.isPending = false ∧
    ∀ run ∈ p.runs, run.generation = p.generation → run.stage.isOver = true
  resting : p.Resting → p.phase = .idle
  busy : p.phase = .compiling ∨ p.phase = .bundling → p.runs ≠ []
  displaying : p.phase = .displaying → p.output.generation = p.generation ∧
    (p.debouncer.isPending = true → p.generation ∈ p.runs.map Run.generation)

theorem Truthful.of_idle (phase : p.phase = .idle) (free : p.debouncer.isPending = false)
    (ended : p.runs = []) : p.Truthful where
  idle _ := by
    refine ⟨free, fun run mem => ?_⟩
    rw [ended] at mem
    cases mem
  resting _ := phase
  busy works := by rw [phase] at works; simp at works
  displaying displays := absurd (phase.symm.trans displays) nofun

/-! ## Moves -/

/-- Nothing changes that the phase is judged by, except that runs may be taken off the list when
nothing is held back, as long as one is left. -/
structure Stays (p q : Pipeline) : Prop where
  phase : q.phase = p.phase
  generation : q.generation = p.generation
  output : q.output = p.output
  busy : p.runs ≠ [] → q.runs ≠ []
  held : q.debouncer.isPending = true → p.debouncer.isPending = true ∧
    q.runs.map Run.generation = p.runs.map Run.generation
  resting : q.Resting → p.Resting

theorem Stays.refl (p : Pipeline) : Stays p p :=
  ⟨rfl, rfl, rfl, id, fun held => ⟨held, rfl⟩, id⟩

theorem Stays.trans (h : Stays p q) (h' : Stays q r) : Stays p r where
  phase := h'.phase.trans h.phase
  generation := h'.generation.trans h.generation
  output := h'.output.trans h.output
  busy := h'.busy ∘ h.busy
  held held := by
    obtain ⟨held', same'⟩ := h'.held held
    obtain ⟨held, same⟩ := h.held held'
    exact ⟨held, same'.trans same⟩
  resting := h.resting ∘ h'.resting

/-- What a move does to the phase. -/
inductive Shift (p q : Pipeline) : Prop where
  | stays (same : Stays p q)
  | debounces (phase : q.phase = .debouncing) (held : q.debouncer.isPending = true)
  | works (phase : q.phase = .compiling ∨ q.phase = .bundling) (busy : q.runs ≠ [])
  | rests (phase : q.phase = .idle) (free : q.debouncer.isPending = false)
      (ended : q.runs = [] ∨ q.output.generation = q.generation)
  /-- The latest run publishes, and it crashes. -/
  | displays (phase : q.phase = .displaying) (latest : q.output.generation = q.generation)
      (ends : q.generation ∈ q.runs.map Run.generation) (fresh : q.output ≠ p.output)

theorem Stays.shift (h : Stays p q) (h' : Shift q r) : Shift p r := by
  cases h' with
  | stays same => exact .stays (h.trans same)
  | debounces phase held => exact .debounces phase held
  | works phase busy => exact .works phase busy
  | rests phase free ended => exact .rests phase free ended
  | displays phase latest ends fresh => exact .displays phase latest ends (h.output ▸ fresh)

theorem Stays.of_runs (phase : q.phase = p.phase) (generation : q.generation = p.generation)
    (output : q.output = p.output)
    (held : q.debouncer.isPending = true → p.debouncer.isPending = true)
    (runs : q.runs.map Run.generation = p.runs.map Run.generation)
    (resting : q.Resting → p.Resting) : Stays p q where
  phase := phase
  generation := generation
  output := output
  busy hne none := hne (List.map_eq_nil_iff.mp (runs.symm.trans (congrArg _ none)))
  held pending := ⟨held pending, runs⟩
  resting := resting

/-- All that the phase is judged by. -/
def gauge (p : Pipeline) : Phase × Nat × Output × Bool × List Nat × List Trigger × Loop :=
  (p.phase, p.generation, p.output, p.debouncer.isPending, p.runs.map Run.generation, p.queue,
    p.loop)

theorem Stays.of_gauge (h : q.gauge = p.gauge) : Stays p q := by
  simp only [gauge, Prod.mk.injEq] at h
  obtain ⟨phase, generation, output, held, runs, queue, loop⟩ := h
  refine .of_runs phase generation output (held ▸ id) runs fun rest => ?_
  exact ⟨held ▸ rest.free, queue ▸ rest.empty,
    List.map_eq_nil_iff.mp (runs.symm.trans (congrArg _ rest.ended)), loop ▸ rest.goes⟩

/-! What is queued keeps the pipeline from resting. -/

theorem not_resting_trigger (p : Pipeline) : ¬p.trigger.Resting := by
  intro rest
  have empty := rest.empty
  rw [queue_trigger] at empty
  exact List.append_ne_nil_of_right_ne_nil _ (List.cons_ne_nil _ _) empty

theorem stays_trigger (p : Pipeline) : Stays p p.trigger := by
  have same : p.trigger.phase = p.phase ∧ p.trigger.generation = p.generation ∧
      p.trigger.output = p.output ∧ p.trigger.debouncer = p.debouncer ∧
      p.trigger.runs = p.runs := by
    simp only [trigger]
    split <;> exact ⟨rfl, rfl, rfl, rfl, rfl⟩
  obtain ⟨phase, generation, output, debouncer, runs⟩ := same
  exact .of_runs phase generation output (by rw [debouncer]; exact id) (by rw [runs])
    fun rest => absurd rest (not_resting_trigger p)

/-! ## Runs -/

theorem map_generation_setStage (p : Pipeline) (generation : Nat) (stage : Stage) :
    (p.setStage generation stage).runs.map Run.generation = p.runs.map Run.generation := by
  simp only [setStage, List.map_map]
  refine List.map_congr_left fun run _ => ?_
  simp only [Function.comp_apply]
  split <;> rfl

theorem gauge_setStage (p : Pipeline) (generation : Nat) (stage : Stage) :
    (p.setStage generation stage).gauge = p.gauge := by
  rw [gauge, map_generation_setStage]
  rfl

theorem stays_finish (p : Pipeline) (run : Run) (crash : Option Failure) :
    Stays p (p.finish run crash) :=
  .of_gauge (gauge_setStage p run.generation (.finished crash))

theorem stays_resume (p : Pipeline) (generation : Nat) (stage : Stage) :
    Stays p (p.resume generation stage) :=
  .of_gauge (gauge_setStage p generation stage)

/-- The phase is not left as it is unless nothing is held back and a run is in flight. -/
theorem shift_settlePhase (p : Pipeline) (h : p.debouncer.isPending = false → p.runs ≠ [] →
    Shift q p) : Shift q p.settlePhase := by
  unfold settlePhase
  split
  · next held => exact .debounces rfl held
  · next free =>
      rw [Bool.not_eq_true] at free
      split
      · next none => exact .rests rfl free (.inl (List.isEmpty_iff.mp none))
      · next some => exact h free fun none => some (List.isEmpty_iff.mpr none)

theorem shift_dispatch (p : Pipeline) (trigger : Trigger)
    (h : p.debouncer.isPending = false → p.runs ≠ [] → Shift q p) :
    Shift q (p.dispatch trigger) := by
  simp only [dispatch]
  split
  · exact shift_settlePhase p h
  · exact .works (.inl rfl) (List.append_ne_nil_of_right_ne_nil _ (List.cons_ne_nil _ _))

theorem shift_foldl_dispatch (queue : List Trigger) (trigger : Trigger) (p : Pipeline)
    (h : p.debouncer.isPending = false → p.runs ≠ [] → Shift q p) :
    Shift q ((trigger :: queue).foldl dispatch p) := by
  induction queue generalizing p trigger with
  | nil => exact shift_dispatch p trigger h
  -- What the phase was before the first trigger is of no account to the second.
  | cons next rest ih => exact ih next (p.dispatch trigger) fun _ _ => shift_dispatch p trigger h

/-- The last thing that the control loop may do about the phase comes last. -/
theorem Shift.stays_after (h : Shift p q) (h' : Stays q r) (runs : r.runs = q.runs)
    (debouncer : r.debouncer = q.debouncer) : Shift p r := by
  cases h with
  | stays same => exact .stays (same.trans h')
  | debounces phase held => exact .debounces (h'.phase.trans phase) (by rw [debouncer]; exact held)
  | works phase busy => exact .works (by rw [h'.phase]; exact phase) (by rw [runs]; exact busy)
  | rests phase free ended =>
      refine .rests (h'.phase.trans phase) (by rw [debouncer]; exact free) ?_
      rw [runs, h'.output, h'.generation]
      exact ended
  | displays phase latest ends fresh =>
      refine .displays (h'.phase.trans phase) ?_ ?_ (h'.output ▸ fresh)
      · rw [h'.output, h'.generation]
        exact latest
      · rw [runs, h'.generation]
        exact ends

theorem loop_foldl_dispatch (queue : List Trigger) (p : Pipeline) :
    (queue.foldl dispatch p).loop = p.loop := by
  obtain ⟨_, _, _, frame⟩ := Core.foldl_dispatch_frame queue p.core
  exact congrArg Core.loop ((core_foldl_dispatch queue p).trans frame)

theorem shift_consume (p : Pipeline) (goes : p.loop = .created ∨ p.loop = .woken) :
    Shift p { p.consume with loop := .waiting } := by
  have goes' : p.loop = .created ∨ p.loop = .waiting ∨ p.loop = .woken := by
    rcases goes with goes | goes <;> simp [goes]
  cases queue : p.queue with
  | nil =>
      simp only [consume, queue]
      exact .stays (.of_runs rfl rfl rfl id rfl fun rest =>
        ⟨rest.free, queue, rest.ended, goes'⟩)
  | cons trigger more =>
      have taken : Shift p ((trigger :: more).foldl dispatch { p with queue := [] }) :=
        shift_foldl_dispatch more trigger { p with queue := [] } fun _ busy =>
          .stays (.of_runs rfl rfl rfl id rfl fun rest => absurd rest.ended busy)
      have loop := loop_foldl_dispatch (trigger :: more) { p with queue := [] }
      simp only [consume, queue]
      refine taken.stays_after (.of_runs rfl rfl rfl id rfl fun rest => ?_) rfl rfl
      exact ⟨rest.free, rest.empty, rest.ended, by rw [loop]; exact goes'⟩

theorem shift_serveLoop (p : Pipeline) : Shift p p.serveLoop := by
  unfold serveLoop
  split
  · next created => exact shift_consume p (.inl created)
  · next woken => exact shift_consume p (.inr woken)
  · refine .stays (.of_runs rfl rfl rfl id rfl fun rest => ?_)
    rcases rest.goes with goes | goes | goes <;> cases goes
  all_goals exact .stays (.refl p)

/-! What a run does -/

theorem shift_publish {run : Run} (result : CompileResult) (bundles : List BundleChunk)
    (mem : run ∈ q.runs) (latest : run.generation = q.generation)
    (fresh : run.generation ≠ p.output.generation) :
    Shift p (q.publish run result bundles) := by
  obtain ⟨editors, h⟩ := publish_frame q run result bundles
  rw [h]
  by_cases breaks : q.breaks = true
  · rw [if_pos breaks, if_pos breaks, if_pos breaks]
    have listed {shown : Pipeline} (runs : shown.runs = q.runs) (crash : Option Failure) :
        q.generation ∈ (shown.finish run crash).runs.map Run.generation := by
      have same := map_generation_setStage shown run.generation (.finished crash)
      change (shown.finish run crash).runs.map Run.generation = _ at same
      rw [same, runs, ← latest]
      exact List.mem_map_of_mem mem
    exact .displays rfl latest (listed rfl _) fun same => fresh (congrArg Output.generation same)
  · rw [if_neg breaks, if_neg breaks, if_neg breaks]
    cases held : q.debouncer.isPending with
    | true => exact .debounces rfl held
    | false => exact .rests rfl held (.inr latest)

theorem shift_serveRun (sound : p.core.Sound) (generation : Nat) :
    Shift p (p.serveRun generation) := by
  have served := runServed p generation
  generalize p.serveRun generation = q at served ⊢
  cases served with
  | idle => exact .stays (.refl p)
  | @ends run latest calls log =>
      have before : Stays p { p with latest, calls, log } := .of_gauge rfl
      exact .stays (before.trans (stays_finish _ run none))
  | @compiles run calls =>
      have before : Stays p { p with calls } := .of_gauge rfl
      exact .stays (before.trans (.of_gauge (gauge_setStage _ run.generation _)))
  | bundles mem =>
      exact .works (.inr rfl) ((Stays.of_gauge (gauge_setStage _ _ _)).busy
        (List.ne_nil_of_mem mem))
  | @publishes run _ _ _ _ result bundles mem isOpen current =>
      have fresh := sound.unpublished run.forCaller (mem_core_runs mem) isOpen
      exact shift_publish result bundles mem current fresh

/-- Taking a run off the list leaves the phase as it is only as long as another is in flight. -/
theorem shift_reap (p : Pipeline) (generation : Nat) : Shift p (p.reap generation) := by
  have struck (q : Pipeline) (phase : q.phase = p.phase) (latest : q.generation = p.generation)
      (output : q.output = p.output) (held : q.debouncer = p.debouncer) :
      Shift p q.settlePhase := by
    refine shift_settlePhase q fun free busy => .stays ?_
    exact {
      phase, generation := latest, output
      busy := fun _ => busy
      held := fun held => absurd held (by rw [free]; nofun)
      resting := fun rest => absurd rest.ended busy }
  simp only [reap]
  split
  · exact struck _ rfl rfl rfl rfl
  · exact struck _ rfl rfl rfl rfl

/-! Halting, and those who wait -/

theorem gauge_foldl_cancelRun (runs : List Run) (p : Pipeline) :
    (runs.foldl cancelRun p).gauge = p.gauge := by
  induction runs generalizing p with
  | nil => rfl
  | cons run rest ih =>
      rw [List.foldl_cons, ih]
      unfold cancelRun
      split
      any_goals exact gauge_setStage p run.generation .cancelled
      all_goals rfl

/-- A control loop that is not there, or is cancelled, takes nothing. -/
theorem not_resting_haltLoop (p : Pipeline) : ¬p.haltLoop.Resting := by
  have stopped : p.haltLoop.loop = .off ∨ p.haltLoop.loop = .cancelled := by
    unfold haltLoop
    split
    · next off => exact .inl off
    all_goals exact .inr rfl
  intro rest
  rcases stopped with loop | loop <;> simpa [loop] using rest.goes

theorem stays_haltLoop (p : Pipeline) : Stays p p.haltLoop := by
  have same : p.haltLoop.phase = p.phase ∧ p.haltLoop.generation = p.generation ∧
      p.haltLoop.output = p.output ∧ p.haltLoop.debouncer = p.debouncer ∧
      p.haltLoop.runs = p.runs := by
    unfold haltLoop
    split <;> exact ⟨rfl, rfl, rfl, rfl, rfl⟩
  obtain ⟨phase, generation, output, debouncer, runs⟩ := same
  exact .of_runs phase generation output (by rw [debouncer]; exact id) (by rw [runs])
    fun rest => absurd rest (not_resting_haltLoop p)

/-- An edit may be dropped, and the control loop may be started, as long as something is left to
be done. -/
theorem Stays.of_base (h : Stays r q) (base : (r.phase, r.generation, r.output, r.runs) =
      (p.phase, p.generation, p.output, p.runs))
    (held : r.debouncer.isPending = true → p.debouncer.isPending = true)
    (busy : ¬q.Resting) : Stays p q := by
  simp only [Prod.mk.injEq] at base
  obtain ⟨phase, generation, output, runs⟩ := base
  exact {
    phase := h.phase.trans phase
    generation := h.generation.trans generation
    output := h.output.trans output
    busy := runs ▸ h.busy
    held := fun pending => ⟨held (h.held pending).1, runs ▸ (h.held pending).2⟩
    resting := fun rest => absurd rest busy }

theorem Attends.gauge_eq (h : Attends p q) : q.gauge = p.gauge := by
  obtain ⟨_, _, _, _, _, -, -, rfl⟩ := h
  simp only [gauge, List.map_map]
  rfl

theorem gauge_watchRuns (p : Pipeline) (watcher : Watcher) :
    (p.watchRuns watcher).gauge = p.gauge := by
  have runs : (p.watchRuns watcher).runs.map Run.generation = p.runs.map Run.generation := by
    rw [watchRuns_eq]
    simp only [schedule, List.map_map]
    refine List.map_congr_left fun run _ => ?_
    simp only [Function.comp_apply]
    split <;> rfl
  rw [gauge, runs]
  rfl

theorem stays_beginHalt (p : Pipeline) : Stays p p.beginHalt := by
  have cancelled : Stays p.dropEdit (p.dropEdit.runs.foldl cancelRun p.dropEdit) :=
    .of_gauge (gauge_foldl_cancelRun p.dropEdit.runs p.dropEdit)
  simp only [beginHalt]
  split
  · exact (cancelled.trans (stays_haltLoop _)).of_base rfl (absurd · Bool.false_ne_true)
      (not_resting_haltLoop _)
  · next some =>
      have watched (halt : Option Halt) :
          Stays (p.dropEdit.runs.foldl cancelRun p.dropEdit)
            ({ p.dropEdit.runs.foldl cancelRun p.dropEdit with halt }.watchRuns .caller) :=
        .of_gauge (gauge_watchRuns { p.dropEdit.runs.foldl cancelRun p.dropEdit with halt } .caller)
      refine (cancelled.trans (watched _)).of_base rfl (absurd · Bool.false_ne_true) fun rest => ?_
      exact (watched _).busy (fun none => some (List.isEmpty_iff.mpr none)) rest.ended

theorem stays_halt (p : Pipeline) : Stays p (p.after .halt) := by
  have begun := stays_beginHalt p
  simp only [after]
  split
  · rw [proceed]
    split
    · exact begun.trans (.of_gauge rfl)
    · rw [proceed]
      exact begun.trans (.of_gauge rfl)
  · exact .refl p

theorem stays_serveCaller (script : p.script = []) : Stays p p.serveCaller := by
  have served := callerServed script
  generalize p.serveCaller = q at served ⊢
  cases served with
  | waits => exact .refl p
  | cancels => exact stays_haltLoop p
  | returns => exact (stays_haltLoop p).trans (.of_gauge rfl)
  | ends =>
      refine .of_runs rfl rfl rfl id rfl fun rest => ?_
      rcases rest.goes with goes | goes | goes <;> cases goes

theorem stays_noticeCaller (p : Pipeline) : Stays p p.noticeCaller := by
  unfold noticeCaller
  split <;> exact .of_gauge rfl

theorem shift_serve (script : p.script = []) (sound : p.core.Sound) (job : Job) :
    Shift p (p.serve job) := by
  cases job with
  | loop => exact shift_serveLoop p
  | run generation => exact shift_serveRun sound generation
  | reap generation => exact shift_reap p generation
  | notice watcher =>
      cases watcher with
      | waiter i => exact .stays (.of_gauge (attends_noticeWaiter p i).gauge_eq)
      | caller => exact .stays (stays_noticeCaller p)
  | waiter i => exact .stays (.of_gauge (attends_serveWaiter p i).gauge_eq)
  | caller => exact .stays (stays_serveCaller script)

/-! ## Inputs and timers -/

theorem stays_adopted (p : Pipeline) (session : Session) : Stays p (p.adopted session) :=
  .of_gauge rfl

theorem shift_edit (h : Shift p q) (source : Text) : Shift p (q.edit source).1 := by
  rcases q.edit_cases source with same | ⟨-, -, edited⟩
  · rw [same]
    exact h
  · rw [edited]
    exact .debounces rfl rfl

theorem stays_setOptions (p : Pipeline) (minify strategy : Option Json) (transpile : Option Bool) :
    Stays p (p.setOptions minify strategy transpile).1 := by
  rcases p.setOptions_cases minify strategy transpile with h | ⟨session, -, -, -, h⟩ <;> rw [h]
  · exact .refl p
  · exact (stays_adopted p session).trans (stays_trigger _)

theorem stays_setView (p : Pipeline) (view : Json) : Stays p (p.setView view).1 := by
  rcases p.setView_cases view with h | ⟨_, -, -, h⟩ <;> rw [h]
  · exact .refl p
  · exact stays_adopted p _

theorem stays_load (p : Pipeline) (fragment : Text) : Stays p (p.load fragment).1 := by
  rcases p.load_cases fragment with ⟨-, h⟩ | ⟨-, h⟩ <;> rw [h]
  · exact .refl p
  · -- An edit that was held back is dropped, but what is loaded is queued.
    exact (stays_trigger _).of_base rfl (absurd · Bool.false_ne_true) (not_resting_trigger _)

theorem shift_act (p : Pipeline) (action : Action) : Shift p (p.act action).1 := by
  cases action with
  | start =>
      refine .stays (q := p.start) ?_
      rcases p.start_cases with ⟨-, h⟩ | ⟨-, h⟩ <;> rw [h]
      · exact .refl p
      · exact (stays_trigger _).of_base rfl id (not_resting_trigger _)
  | edit source => exact shift_edit (.stays (.refl p)) source
  | type editor source =>
      exact typeInto_rec (motive := Shift p) p editor source (fun _ => .stays (.of_gauge rfl))
        fun _ h => shift_edit h source
  | setOptions minify strategy transpile =>
      exact .stays (stays_setOptions p minify strategy transpile)
  | setView view => exact .stays (stays_setView p view)
  | load fragment => exact .stays (stays_load p fragment)
  | reload => exact .stays (stays_load p p.fragment.current)
  | answerCompiler call reply =>
      refine .stays (q := (p.answerCompiler call reply).1) ?_
      simp only [answerCompiler]
      split
      · exact stays_resume p _ _
      · exact .refl p
  | answerEngine call engineRun =>
      refine .stays (q := (p.answerEngine call engineRun).1) ?_
      simp only [answerEngine]
      split
      · exact stays_resume p _ _
      · exact .refl p
  | stop | attach | wait | subscribe | unsubscribe | read | setEncoder =>
      exact .stays (.of_gauge rfl)

theorem stays_editDue (p : Pipeline) : Stays p (p.after .editDue) := by
  rcases editDue_cases p with ⟨same, -⟩ | ⟨time, source, -, -, -, after⟩
  · rw [same]
    exact .refl p
  · rw [after]
    have fired := (stays_trigger { p with
      debouncer := { p.debouncer with held := none }, settled := source }).of_base (p := p) rfl
      (absurd · Bool.false_ne_true) (not_resting_trigger _)
    exact fired.trans (.of_gauge rfl)

theorem stays_answerDue (p : Pipeline) : Stays p (p.after .answerDue) := by
  simp only [after]
  cases due : p.answerDue? with
  | none => exact .refl p
  | some q =>
      obtain ⟨run, -, found⟩ := List.exists_of_findSome?_eq_some due
      obtain ⟨stage, -, rfl⟩ := Option.map_eq_some_iff.mp found
      exact stays_resume p run.generation stage

/-- A move does one of five things to the phase. -/
theorem shift_after (script : p.script = []) (sound : p.core.Sound) (move : Move) :
    Shift p (p.after move) := by
  cases move with
  | act action => exact shift_act p action
  | halt => exact .stays (stays_halt p)
  | job =>
      simp only [after]
      split
      · exact .stays (.refl p)
      · next job jobs line =>
          have popped : Stays p { p with jobs } := .of_gauge rfl
          have sound' : ({ p with jobs } : Pipeline).core.Sound :=
            sound.mono rfl rfl rfl fun g reap => by
              have mem : Job.reap g ∈ job :: jobs :=
                List.mem_cons_of_mem _ (List.mem_filter.mp reap).1
              exact List.mem_filter.mpr ⟨line ▸ mem, rfl⟩
          exact popped.shift (shift_serve (p := { p with jobs }) script sound' job)
  | editDue => exact .stays (stays_editDue p)
  | answerDue => exact .stays (stays_answerDue p)
  | clock => exact .stays (.of_gauge rfl)

/-! ## Courses -/

theorem isOver_of_turn {move : Move} (sound : p.core.Sound) (turn : p.core.Turn move q.core)
    {run : Run} (mem : run ∈ q.runs) (old : run.generation ≤ p.generation) :
    ∃ earlier ∈ p.runs, earlier.generation = run.generation ∧
      (earlier.stage.isOver = true → run.stage.isOver = true) := by
  rcases turn.continues sound (mem_core_runs mem) with
    ⟨r, hr, generation, -, stage⟩ | ⟨new, -⟩
  · obtain ⟨earlier, mem', generation', -, stage'⟩ := exists_of_mem_core_runs hr
    refine ⟨earlier, mem', generation'.trans generation, fun ended => ?_⟩
    rcases stage with same | advance
    · rw [← stage'] at same
      have same : run.stage = earlier.stage := same
      rw [same]
      exact ended
    · have isOpen : r.stage.isOver = false := advance.isOpen
      rw [← stage', ended] at isOpen
      cases isOpen
  · exact absurd old (Nat.not_le_of_lt new)

theorem Truthful.shift (h : p.Truthful) (shift : Shift p q) {move : Move} (sound : p.core.Sound)
    (turn : p.core.Turn move q.core) : q.Truthful := by
  have sound' : q.core.Sound := sound.turn turn
  cases shift with
  | stays same => exact {
      idle := fun idle => by
        obtain ⟨free, ended⟩ := h.idle (same.phase.symm.trans idle)
        refine ⟨Bool.eq_false_iff.mpr fun held => ?_, fun run mem latest => ?_⟩
        · exact absurd (same.held held).1 (Bool.eq_false_iff.mp free)
        · have latest := latest.trans same.generation
          -- No run is new, for its generation would be. So the latest was on the list, and over.
          obtain ⟨earlier, mem', generation, stays⟩ :=
            isOver_of_turn sound turn mem (Nat.le_of_eq latest)
          exact stays (ended earlier mem' (generation.trans latest))
      resting := fun rest => same.phase.trans (h.resting (same.resting rest))
      busy := fun works => same.busy (h.busy (same.phase ▸ works))
      displaying := fun displays => by
        obtain ⟨latest, listed⟩ := h.displaying (same.phase.symm.trans displays)
        refine ⟨?_, fun held => ?_⟩
        · rw [same.output, same.generation]
          exact latest
        · rw [(same.held held).2, same.generation]
          exact listed (same.held held).1 }
  | debounces phase held => exact {
      idle := fun idle => absurd (phase.symm.trans idle) nofun
      resting := fun rest => absurd (held.symm.trans rest.free) nofun
      busy := fun works => by rw [phase] at works; simp at works
      displaying := fun displays => absurd (phase.symm.trans displays) nofun }
  | works phase busy => exact {
      idle := fun idle => by rw [idle] at phase; simp at phase
      resting := fun rest => absurd rest.ended busy
      busy := fun _ => busy
      displaying := fun displays => by rw [displays] at phase; simp at phase }
  | rests phase free ended => exact {
      idle := fun _ => by
        refine ⟨free, fun run mem latest => ?_⟩
        rcases ended with none | published
        · rw [none] at mem
          cases mem
        · -- The latest run has published, and no run in flight has.
          by_contra live
          exact sound'.unpublished run.forCaller (mem_core_runs mem) (Bool.eq_false_iff.mpr live)
            (latest.trans published.symm)
      resting := fun _ => phase
      busy := fun works => by rw [phase] at works; simp at works
      displaying := fun displays => absurd (phase.symm.trans displays) nofun }
  | displays phase latest ends _ => exact {
      idle := fun idle => absurd (phase.symm.trans idle) nofun
      resting := fun rest => by rw [rest.ended] at ends; cases ends
      busy := fun works => by rw [phase] at works; simp at works
      displaying := fun _ => ⟨latest, fun _ => ends⟩ }

variable {environment : Environment} {window : Int} {fragment : Text}

theorem truthful_follow (h : new environment window fragment = .ok p) (moves : List Move) :
    (p.follow moves).Truthful := by
  induction moves with
  | nil =>
      obtain ⟨debouncer, held, rfl⟩ := new_eq_ok h
      exact .of_idle rfl (congrArg Option.isSome held) rfl
  | cons move before ih =>
      have chronicle := chronicle_follow h before
      exact ih.shift (shift_after chronicle.script chronicle.sound move) chronicle.sound
        (core_turn (p.follow before) move chronicle.script)

/-- In a drained state everything in line has been done, so a run on the list has not ended, and
a control loop that is there waits for the next trigger. -/
theorem drained_follow (h : new environment window fragment = .ok p) {moves : List Move}
    (drained : (p.follow moves).jobs = []) :
    (∀ run ∈ (p.follow moves).runs, run.stage.isOver = false) ∧
      ((p.follow moves).loop ≠ .off →
        (p.follow moves).loop = .waiting ∧ (p.follow moves).queue = []) := by
  have orderly := orderly_follow h moves
  have stops := stops_follow h moves
  have line : (p.follow moves).core.jobs = [] := congrArg (List.filter Job.isCore) drained
  refine ⟨fun run mem => Bool.eq_false_iff.mpr fun ended => ?_, fun there => ?_⟩
  · have reap := orderly.reaped run.forCaller (mem_core_runs mem) ended
    rw [line] at reap
    cases reap
  · have waiting : (p.follow moves).loop = .waiting := by
      cases loop : (p.follow moves).loop with
      | off => exact absurd loop there
      | waiting => rfl
      | created => exact absurd (line ▸ orderly.lined.awake (.inl loop)) nofun
      | woken => exact absurd (line ▸ orderly.lined.awake (.inr loop)) nofun
      | cancelled => exact absurd (line ▸ stops.cancelled loop) nofun
      | ended => exact absurd (line ▸ stops.ended loop) nofun
    exact ⟨waiting, orderly.lined.waiting waiting⟩

/-- In a drained state with the control loop there, a pipeline that is idle has nothing held back,
and its latest run is not in flight. It is idle if nothing is held back, queued or in flight. And
when it compiles or bundles, a run is in flight. -/
theorem phase_tells_of_drained (h : new environment window fragment = .ok p) (moves : List Move)
    (drained : (p.follow moves).jobs = []) (there : (p.follow moves).loop ≠ .off) :
    let q := p.follow moves
    (q.phase = .idle → q.debouncer.isPending = false ∧
      ∀ run ∈ q.runs, run.generation ≠ q.generation) ∧
    (q.debouncer.isPending = false → q.queue = [] → q.runs = [] → q.phase = .idle) ∧
    (q.phase = .compiling ∨ q.phase = .bundling →
      ∃ run ∈ q.runs, run.stage.isOver = false) := by
  intro q
  have truthful : q.Truthful := truthful_follow h moves
  obtain ⟨inFlight, waiting⟩ := drained_follow h drained
  refine ⟨fun idle => ?_, fun free empty ended => ?_, fun works => ?_⟩
  · obtain ⟨free, ended⟩ := truthful.idle idle
    refine ⟨free, fun run mem latest => ?_⟩
    have isOver := ended run mem latest
    rw [inFlight run mem] at isOver
    cases isOver
  · exact truthful.resting ⟨free, empty, ended, .inr (.inl (waiting there).1)⟩
  · obtain ⟨run, mem⟩ := List.exists_mem_of_ne_nil _ (truthful.busy works)
    exact ⟨run, mem, inFlight run mem⟩

/-- The compiler has been called and has not answered yet. -/
theorem phase_tells_of_first_run : ∃ p, new .gated 200 [] = .ok p ∧
    let q := p.follow [.job, .job, .act .start]
    q.phase = .compiling ∧ ∃ run ∈ q.runs, run.stage.isOver = false :=
  ⟨_, rfl, rfl, (@phase_tells_of_drained _ .gated 200 [] rfl [.job, .job, .act .start] rfl
    (by decide)).2.2 (.inl rfl)⟩

end Pipeline

end Playground
