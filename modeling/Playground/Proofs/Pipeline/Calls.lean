import Playground.Proofs.Pipeline.Idleness
import Playground.Proofs.Pipeline.Minting

/-!
# The compiler is called once for each run

A run calls the compiler when it is served for the first time. Until then it is fresh, and
its job is in line. Jobs are done in the order in which they are put in line, so the fresh
runs are served in the order in which they were started, and the calls come in that order.

To see this it is enough to look at the jobs of runs. Most of what happens adds none. An
answer puts a run in line that is not fresh any more, and only the control loop puts in
line those that it starts.
-/

namespace Playground

/-- Whether a run has just been created. -/
def Stage.isCreated : Stage → Bool
  | .created => true
  | _ => false

/-- The run that a job is for. -/
def Job.run? : Job → Option Nat
  | .run generation => some generation
  | _ => none

/-! ## Fresh runs -/

namespace Core

variable {c d : Core} {r : Run} {move : Move} {generation : Nat}

/-- The runs that have not called the compiler yet. -/
def fresh (c : Core) : List Run :=
  c.runs.filter fun r => r.stage.isCreated

theorem mem_fresh : r ∈ c.fresh ↔ r ∈ c.runs ∧ r.stage.isCreated = true :=
  List.mem_filter

/-- A run that is taken further is not fresh any more. -/
theorem fresh_setStage (c : Core) (generation : Nat) {stage : Stage}
    (begun : stage.isCreated = false) :
    (c.setStage generation stage).fresh = c.fresh.filter fun r => r.generation ≠ generation := by
  rw [fresh, setStage, List.filter_map, fresh, List.filter_filter]
  have others : (c.runs.filter ((fun r => r.stage.isCreated) ∘ fun r =>
      if r.generation = generation then { r with stage } else r)) =
      c.runs.filter fun r => decide (r.generation ≠ generation) && r.stage.isCreated := by
    refine List.filter_congr fun r _ => ?_
    by_cases mine : r.generation = generation
    · simp [mine, begun]
    · simp [mine]
  rw [others]
  refine (List.map_congr_left fun r hr => if_neg fun mine => ?_).trans (List.map_id _)
  have other := (List.mem_filter.mp hr).2
  simp [mine] at other

/-- When a run is taken further that is not fresh, the fresh runs stay the same. -/
theorem filter_fresh (begun : ∀ r ∈ c.runs, r.generation = generation → r.stage.isCreated = false) :
    (c.fresh.filter fun r => r.generation ≠ generation) = c.fresh := by
  refine List.filter_eq_self.mpr fun r hr => decide_eq_true fun mine => ?_
  obtain ⟨mem, created⟩ := mem_fresh.mp hr
  rw [begun r mem mine] at created
  cases created

theorem fresh_resume (sound : c.Sound) (mem : r ∈ c.runs) (begun : r.stage.isCreated = false)
    {stage : Stage} (next : stage.isCreated = false) :
    (c.setStage r.generation stage).fresh = c.fresh := by
  refine (fresh_setStage c _ next).trans (filter_fresh fun s hs same => ?_)
  rw [sound.eq_of_generation hs mem same]
  exact begun

/-- A run that is taken off the list has ended, so it is not fresh. -/
theorem fresh_strike (ended : ∀ r ∈ c.runs, r.generation = generation → r.stage.isOver = true) :
    (c.strike generation).fresh = c.fresh := by
  rw [fresh, strike, List.filter_filter]
  refine List.filter_congr fun r hr => ?_
  by_cases mine : r.generation = generation
  · have isOver := ended r hr mine
    revert isOver
    cases r.stage <;> simp [Stage.isOver, Stage.isCreated]
  · simp [mine]

/-- A run that is served is not fresh any more. -/
theorem Served.fresh (served : c.Served r d) (compiler : c.environment.compiler ≠ none) :
    d.fresh = (c.fresh.filter fun s => s.generation ≠ r.generation) ∧
      d.calls = c.calls ++ (if r.stage.isCreated then [r.options] else []) ∧
      d.generation = c.generation := by
  have calls : (c.called r).calls =
      c.calls ++ if r.stage.isCreated then [r.options] else [] := by
    unfold called
    cases r.stage <;> simp [Stage.isCreated]
  obtain ⟨more, hc⟩ := called_frame c r
  have generation : (c.called r).generation = c.generation := by
    rw [hc]
  have goes {stage : Stage} (begun : stage.isCreated = false) :
      ((c.called r).setStage r.generation stage).fresh =
        c.fresh.filter fun s => s.generation ≠ r.generation := by
    rw [fresh_setStage _ _ begun, hc]
    rfl
  cases served with
  | waits | fails | superseded | bundles | publishes => exact ⟨goes rfl, calls, generation⟩
  | quits why =>
      have begun : r.stage.isCreated = false := by
        rcases why with cancelled | ⟨-, none⟩
        · rw [cancelled]
          rfl
        · exact absurd none compiler
      refine ⟨fresh_setStage c _ rfl, ?_, rfl⟩
      rw [begun]
      exact (List.append_nil _).symm

/-- Nothing but a job makes a run begin. -/
theorem Turn.fresh (turn : c.Turn move d) (sound : c.Sound) (hj : move ≠ .job)
    (hh : move ≠ .halt) : d.fresh = c.fresh ∧ d.calls = c.calls ∧ d.generation = c.generation := by
  cases turn with
  | still | edits | views => exact ⟨rfl, rfl, rfl⟩
  | chooses | loads | starts | fires =>
      obtain ⟨_, _, _, ht⟩ := trigger_frame _
      rw [ht]
      exact ⟨rfl, rfl, rfl⟩
  | answers mem waits | builds mem waits | answerDue mem waits | buildDue mem waits =>
      exact ⟨fresh_resume sound mem (by rw [waits]; rfl) rfl, rfl, rfl⟩
  | halts => exact absurd rfl hh
  | consumes | loopEnds | loopSleeps | serves | reaps | notices | resumes =>
      exact absurd rfl hj

end Core

namespace Pipeline

variable {p q : Pipeline} {move : Move}

/-! ## The line of the runs -/

/-- The runs that are in line. -/
def line (p : Pipeline) : List Nat :=
  p.jobs.filterMap Job.run?

/-- Jobs that are for no run do not add to the line of the runs. -/
theorem line_schedule {jobs : List Job} (others : ∀ job ∈ jobs, job.run? = none) :
    (p.schedule jobs).line = p.line := by
  have none : jobs.filterMap Job.run? = [] := List.filterMap_eq_nil_iff.mpr others
  rw [line, schedule, List.filterMap_append, none, List.append_nil]
  rfl

theorem line_resume (p : Pipeline) (generation : Nat) (stage : Stage) :
    (p.resume generation stage).line = p.line ++ [generation] :=
  List.filterMap_append

theorem line_trigger (p : Pipeline) : p.trigger.line = p.line := by
  simp only [trigger]
  split
  · exact line_schedule (by simp [Job.run?])
  · rfl

theorem line_release (p : Pipeline) (outcome : Debouncer Text Nat × List Nat) :
    (p.release outcome).line = p.line :=
  line_schedule (by simp [Job.run?])

/-! ### Actions -/

theorem line_edit (p : Pipeline) (source : Text) : (p.edit source).1.line = p.line := by
  rcases p.edit_cases source with h | ⟨-, -, h⟩ <;> rw [h]
  rfl

theorem line_typeInto (p : Pipeline) (k : Nat) (source : Text) :
    (p.typeInto k source).1.line = p.line :=
  typeInto_rec (motive := fun q : Pipeline => q.line = p.line) p k source (fun _ => rfl)
    fun q hq => (line_edit q source).trans hq

theorem line_setOptions (p : Pipeline) (minify strategy : Option Json) (transpile : Option Bool) :
    (p.setOptions minify strategy transpile).1.line = p.line := by
  rcases p.setOptions_cases minify strategy transpile with h | ⟨_, -, -, -, h⟩ <;> rw [h]
  exact (line_trigger _).trans rfl

theorem line_setView (p : Pipeline) (given : Json) : (p.setView given).1.line = p.line := by
  rcases p.setView_cases given with h | ⟨_, -, -, h⟩ <;> rw [h]
  rfl

theorem line_load (p : Pipeline) (fragment : Text) : (p.load fragment).1.line = p.line := by
  rcases p.load_cases fragment with ⟨-, h⟩ | ⟨-, h⟩ <;> rw [h]
  exact (line_trigger _).trans (line_release _ _)

theorem line_start (p : Pipeline) : p.start.line = p.line := by
  rcases p.start_cases with ⟨-, h⟩ | ⟨-, h⟩ <;> rw [h]
  exact (line_trigger _).trans (line_schedule (by simp [Job.run?]))

/-! ### Jobs -/

theorem line_settlePhase (p : Pipeline) : p.settlePhase.line = p.line := by
  unfold settlePhase
  split
  · rfl
  · split <;> rfl

theorem line_finish (p : Pipeline) (run : Run) (crash : Option Failure) :
    (p.finish run crash).line = p.line :=
  line_schedule (by simp [Job.run?])

theorem line_publish (p : Pipeline) (run : Run) (result : CompileResult)
    (bundles : List BundleChunk) : (p.publish run result bundles).line = p.line := by
  obtain ⟨_, h⟩ := publish_frame p run result bundles
  rw [h]
  exact line_finish _ _ _

theorem line_serveRun (p : Pipeline) (generation : Nat) : (p.serveRun generation).line = p.line := by
  have served := runServed p generation
  generalize p.serveRun generation = q at served ⊢
  cases served with
  | idle | compiles | bundles => rfl
  | ends => exact line_finish _ _ _
  | publishes => exact line_publish _ _ _ _

theorem line_reap (p : Pipeline) (generation : Nat) : (p.reap generation).line = p.line := by
  unfold reap
  refine (line_settlePhase _).trans ?_
  split <;> rfl

theorem Attends.line_eq (h : Attends p q) : q.line = p.line := by
  obtain ⟨_, _, _, _, more, -, others, rfl⟩ := h
  refine line_schedule fun job hj => ?_
  obtain ⟨i, rfl | rfl⟩ := others job hj <;> rfl

theorem line_noticeCaller (p : Pipeline) : p.noticeCaller.line = p.line := by
  unfold noticeCaller
  split
  · rfl
  · exact line_schedule (by simp [Job.run?])
  · rfl

theorem line_haltLoop (p : Pipeline) : p.haltLoop.line = p.line := by
  unfold haltLoop
  split
  · rfl
  · exact line_schedule (by simp [Job.run?])
  all_goals rfl

theorem line_serveCaller (script : p.script = []) : p.serveCaller.line = p.line := by
  have served := callerServed script
  generalize p.serveCaller = q at served ⊢
  cases served with
  | waits | ends => rfl
  | cancels | returns => exact line_haltLoop p

/-! ## What happens to the line and to the fresh runs -/

/-- The generations of the runs that have not called the compiler yet. -/
def fresh (p : Pipeline) : List Nat :=
  p.core.fresh.map Run.generation

theorem mem_fresh_iff (sound : p.core.Sound) {r : Run} (mem : r ∈ p.core.runs) :
    r.generation ∈ p.fresh ↔ r.stage.isCreated = true := by
  constructor
  · intro h
    obtain ⟨s, hs, same⟩ := List.mem_map.mp h
    obtain ⟨mem', created⟩ := Core.mem_fresh.mp hs
    rw [← sound.eq_of_generation mem' mem same]
    exact created
  · exact fun created => List.mem_map_of_mem (Core.mem_fresh.mpr ⟨mem, created⟩)

/-- Runs are started, and put in line in the order of their generations. -/
structure Starts (p q : Pipeline) (more : List Run) : Prop where
  line : q.line = p.line ++ more.map Run.generation
  runs : q.core.runs = p.core.runs ++ more
  new : ∀ r ∈ more, r.stage = .created ∧ p.generation < r.generation ∧ r.generation ≤ q.generation
  calls : q.calls = p.calls
  generation : p.generation ≤ q.generation

/-- Runs are put in line that are not fresh, or the first run in line goes on or begins, or
the control loop starts runs. -/
inductive Onset (p q : Pipeline) : Prop where
  | joins (more : List Nat) (line : q.line = p.line ++ more)
      (begun : ∀ g ∈ more, g ∉ p.fresh ∧ g ≤ p.generation) (fresh : q.core.fresh = p.core.fresh)
      (calls : q.calls = p.calls) (generation : q.generation = p.generation)
  | leaves (g : Nat) (line : p.line = g :: q.line) (begun : g ∉ p.fresh)
      (fresh : q.core.fresh = p.core.fresh) (calls : q.calls = p.calls)
      (generation : q.generation = p.generation)
  | begins (r : Run) (mem : r ∈ p.core.fresh) (line : p.line = r.generation :: q.line)
      (fresh : q.core.fresh = p.core.fresh.filter fun s => s.generation ≠ r.generation)
      (calls : q.calls = p.calls ++ [r.options]) (generation : q.generation = p.generation)
  | starts (more : List Run) (starts : Starts p q more)

/-- The jobs of others do not matter. -/
theorem Onset.of_line {jobs : List Job} (o : Onset { p with jobs } q)
    (line : p.line = ({ p with jobs } : Pipeline).line) : Onset p q := by
  cases o with
  | joins more after begun fresh calls generation =>
      exact .joins more (line ▸ after) begun fresh calls generation
  | leaves g before begun fresh calls generation =>
      exact .leaves g (line.trans before) begun fresh calls generation
  | begins r mem before fresh calls generation =>
      exact .begins r mem (line.trans before) fresh calls generation
  | starts more starts =>
      exact .starts more { starts with line := line ▸ starts.line }

/-- Who resumes a run puts it in line, and the run is not fresh. -/
theorem exists_resumed (sound : p.core.Sound) {r : Run} (mem : r ∈ p.runs) (stage : Stage)
    (waits : r.stage.isCreated = false) :
    ∃ more, (p.resume r.generation stage).line = p.line ++ more ∧
      ∀ g ∈ more, g ∉ p.fresh ∧ g ≤ p.generation := by
  refine ⟨[r.generation], line_resume p _ _, fun g hg => ?_⟩
  rw [List.mem_singleton.mp hg]
  have mem' := mem_core_runs mem
  refine ⟨fun fresh => ?_, sound.le r.forCaller mem'⟩
  have created : r.stage.isCreated = true := (mem_fresh_iff (r := r.forCaller) sound mem').mp fresh
  rw [waits] at created
  cases created

theorem exists_line_act (sound : p.core.Sound) (action : Action) :
    ∃ more, (p.act action).1.line = p.line ++ more ∧
      ∀ g ∈ more, g ∉ p.fresh ∧ g ≤ p.generation := by
  have same {q : Pipeline} (line : q.line = p.line) :
      ∃ more, q.line = p.line ++ more ∧ ∀ g ∈ more, g ∉ p.fresh ∧ g ≤ p.generation :=
    ⟨[], line.trans (List.append_nil _).symm, by simp⟩
  cases action with
  | start => exact same (line_start p)
  | edit source => exact same (line_edit p source)
  | setOptions minify strategy transpile => exact same (line_setOptions p minify strategy transpile)
  | setView view => exact same (line_setView p view)
  | load fragment => exact same (line_load p fragment)
  | reload => exact same (line_load p _)
  | type k source => exact same (line_typeInto p k source)
  | wait => exact same (line_schedule (by simp [Job.run?]))
  | answerCompiler call reply =>
      simp only [act, answerCompiler]
      split
      · next r found =>
          refine exists_resumed sound (List.mem_of_find?_eq_some found) _ ?_
          have waits := List.find?_some found
          revert waits
          cases r.stage <;> simp [Stage.isCreated]
      · exact same rfl
  | answerEngine call engineRun =>
      simp only [act, answerEngine]
      split
      · next g result found =>
          obtain ⟨r, mem, waits⟩ := List.exists_of_findSome?_eq_some found
          split at waits
          · next stage =>
              split at waits
              · cases waits
                exact exists_resumed sound mem _ (by rw [stage]; rfl)
              · cases waits
          · cases waits
      · exact same rfl
  | stop | attach | subscribe | unsubscribe | read | setEncoder => exact same rfl

/-- A job that is neither for a run nor for the control loop lets no run begin. -/
theorem fresh_serve {job : Job} (script : p.script = []) (run : job.run? = none)
    (loop : job ≠ .loop)
    (ended : ∀ r ∈ p.core.runs, job = .reap r.generation → r.stage.isOver = true) :
    (p.serve job).line = p.line ∧ (p.serve job).core.fresh = p.core.fresh ∧
      (p.serve job).calls = p.calls ∧ (p.serve job).generation = p.generation := by
  have of_core {q : Pipeline} {c : Core} (line : q.line = p.line) (core : q.core = c)
      (same : c.fresh = p.core.fresh ∧ c.calls = p.core.calls ∧ c.generation = p.core.generation) :
      q.line = p.line ∧ q.core.fresh = p.core.fresh ∧ q.calls = p.calls ∧
        q.generation = p.generation := by
    subst core
    exact ⟨line, same⟩
  cases job with
  | loop => exact absurd rfl loop
  | run => cases run
  | reap g =>
      refine of_core (line_reap p g) (core_reap p g) ⟨?_, rfl, rfl⟩
      exact Core.fresh_strike fun r hr he => ended r hr (he ▸ rfl)
  | notice watcher =>
      cases watcher with
      | waiter i =>
          have attends := attends_noticeWaiter p i
          exact of_core attends.line_eq attends.core_eq ⟨rfl, rfl, rfl⟩
      | caller =>
          obtain ⟨_, _, _, hn⟩ := Core.notice_frame p.core
          exact of_core (line_noticeCaller p) ((core_noticeCaller p).trans hn) ⟨rfl, rfl, rfl⟩
  | waiter i =>
      have attends := attends_serveWaiter p i
      exact of_core attends.line_eq attends.core_eq ⟨rfl, rfl, rfl⟩
  | caller =>
      obtain ⟨_, _, _, _, hr⟩ := Core.resume_frame p.core
      exact of_core (line_serveCaller script) ((core_serveCaller script).trans hr) ⟨rfl, rfl, rfl⟩

theorem dispatch_mints {trigger : Trigger}
    (new : ¬(p.environment.compiler.isNone ∨ p.latest = some (p.optionsFor trigger))) :
    p.dispatch trigger = ({ p with
      generation := p.generation + 1
      latest := some (p.optionsFor trigger)
      phase := .compiling
      runs := p.runs ++ [{ generation := p.generation + 1, options := p.optionsFor trigger }]
      } : Pipeline).schedule [.run (p.generation + 1)] :=
  if_neg (by simpa using new)

theorem Starts.trans {r : Pipeline} {first second : List Run} (h : Starts p q first)
    (h' : Starts q r second) : Starts p r (first ++ second) where
  line := by rw [h'.line, h.line, List.append_assoc, List.map_append]
  runs := by rw [h'.runs, h.runs, List.append_assoc]
  new s hs := by
    rcases List.mem_append.mp hs with hs | hs
    · obtain ⟨created, later, le⟩ := h.new s hs
      exact ⟨created, later, Nat.le_trans le h'.generation⟩
    · obtain ⟨created, later, le⟩ := h'.new s hs
      exact ⟨created, Nat.lt_of_le_of_lt h.generation later, le⟩
  calls := h'.calls.trans h.calls
  generation := Nat.le_trans h.generation h'.generation

theorem exists_starts_dispatch (p : Pipeline) (trigger : Trigger) :
    ∃ more, Starts p (p.dispatch trigger) more := by
  by_cases skips : p.environment.compiler.isNone ∨ p.latest = some (p.optionsFor trigger)
  · have settles : p.dispatch trigger = p.settlePhase := if_pos (by simpa using skips)
    have core := core_settlePhase p
    have generation : p.settlePhase.generation = p.generation := congrArg Core.generation core
    rw [settles]
    refine ⟨[], ?_, ?_, by simp, congrArg Core.calls core, Nat.le_of_eq generation.symm⟩
    · exact (line_settlePhase p).trans (List.append_nil _).symm
    · exact (congrArg Core.runs core).trans (List.append_nil _).symm
  · rw [dispatch_mints skips]
    refine ⟨[{ generation := p.generation + 1, options := p.optionsFor trigger }],
      List.filterMap_append, List.map_append, ?_, rfl, Nat.le_succ _⟩
    intro r hr
    rw [List.mem_singleton.mp hr]
    exact ⟨rfl, Nat.lt_succ_self _, Nat.le_refl _⟩

/-- The control loop puts in line what it starts. -/
theorem exists_starts_foldl (queue : List Trigger) (p : Pipeline) :
    ∃ more, Starts p (queue.foldl dispatch p) more := by
  induction queue generalizing p with
  | nil => exact ⟨[], (List.append_nil _).symm, (List.append_nil _).symm, by simp, rfl, Nat.le_refl _⟩
  | cons trigger rest ih =>
      obtain ⟨first, starts⟩ := exists_starts_dispatch p trigger
      obtain ⟨second, goes⟩ := ih (p.dispatch trigger)
      exact ⟨first ++ second, starts.trans goes⟩

theorem onset_serveLoop (p : Pipeline) : Onset p p.serveLoop := by
  have consumes : Onset p { p.consume with loop := .waiting } := by
    unfold consume
    split
    · exact .joins [] (List.append_nil _).symm (by simp) rfl rfl rfl
    · obtain ⟨more, starts⟩ := exists_starts_foldl p.queue { p with queue := [] }
      refine .starts more ⟨?_, starts.runs, starts.new, starts.calls, starts.generation⟩
      exact (line_schedule (by simp [Job.run?])).trans starts.line
  unfold serveLoop
  split
  · exact consumes
  · exact consumes
  · exact .joins [] ((line_schedule (by simp [Job.run?])).trans (List.append_nil _).symm) (by simp)
      rfl rfl rfl
  all_goals exact .joins [] (List.append_nil _).symm (by simp) rfl rfl rfl

/-- The run of a generation is found by its generation. -/
theorem run?_eq_some (sound : p.core.Sound) {run : Run} (mem : run ∈ p.runs) :
    p.run? run.generation = some run := by
  cases found : p.run? run.generation with
  | none =>
      have other := List.find?_eq_none.mp found run mem
      simp at other
  | some s =>
      have same : s.generation = run.generation := by simpa using List.find?_some found
      have hs := List.inj_on_of_nodup_map (distinct_of_sound sound)
        (List.mem_of_find?_eq_some found) mem same
      rw [hs]

theorem onset_serveRun (sound : p.core.Sound) (compiler : ∀ r ∈ p.runs, p.environment.compiler ≠ none)
    {g : Nat} {rest : List Job} (jobs : p.jobs = .run g :: rest) :
    Onset p ({ p with jobs := rest }.serveRun g) := by
  have line : p.line = g :: ({ p with jobs := rest }.serveRun g).line := by
    rw [line_serveRun, line, jobs]
    rfl
  rcases core_serveRun { p with jobs := rest } g with ⟨same, begun⟩ | ⟨r, mem, rfl, served⟩
  · refine .leaves g line (fun fresh => ?_) (congrArg Core.fresh same :)
      (congrArg Core.calls same :) (congrArg Core.generation same :)
    obtain ⟨r, hr, rfl⟩ := List.mem_map.mp fresh
    obtain ⟨mem, created⟩ := Core.mem_fresh.mp hr
    obtain ⟨s, hs, same, -, stage⟩ := exists_of_mem_core_runs mem
    have found : p.run? r.generation = some s := same ▸ run?_eq_some sound hs
    have other := begun s found
    rw [← stage] at created
    revert created other
    cases s.stage <;> simp [Stage.isCreated]
  · obtain ⟨s, hs, -⟩ := exists_of_mem_core_runs mem
    obtain ⟨fresh, calls, generation⟩ := served.fresh (compiler s hs)
    cases created : r.stage.isCreated with
    | true =>
        rw [created] at calls
        exact .begins r (Core.mem_fresh.mpr ⟨mem, created⟩) line fresh calls generation
    | false =>
        rw [created] at calls
        refine .leaves r.generation line (fun fresh => ?_) (fresh.trans ?_)
          (calls.trans (List.append_nil _)) generation
        · rw [mem_fresh_iff sound mem, created] at fresh
          cases fresh
        · refine Core.filter_fresh (c := p.core) fun t ht same => ?_
          rw [sound.eq_of_generation ht mem same]
          exact created

theorem onset_job (script : p.script = []) (sound : p.core.Sound)
    (compiler : ∀ r ∈ p.runs, p.environment.compiler ≠ none) : Onset p (p.after .job) := by
  cases jobs : p.jobs with
  | nil =>
      have idle : p.after .job = p := by simp only [after, jobs]
      rw [idle]
      exact .joins [] (List.append_nil _).symm (by simp) rfl rfl rfl
  | cons job rest =>
      have serves : p.after .job = { p with jobs := rest }.serve job := by
        simp only [after, jobs]
      have pops (run : job.run? = none) : p.line = ({ p with jobs := rest } : Pipeline).line := by
        rw [line, jobs, List.filterMap_cons, run]
        rfl
      rw [serves]
      by_cases loop : job = .loop
      · subst loop
        exact (onset_serveLoop { p with jobs := rest }).of_line (pops rfl)
      cases run : job.run? with
      | some g =>
          have he : job = .run g := by
            revert run
            cases job <;> simp [Job.run?]
          subst he
          exact onset_serveRun sound compiler jobs
      | none =>
          have ended : ∀ r ∈ p.core.runs, job = .reap r.generation → r.stage.isOver = true := by
            rintro r hr rfl
            refine sound.reaps_over r hr ?_
            rw [core_line jobs rfl]
            exact List.mem_cons_self
          obtain ⟨line, fresh, calls, generation⟩ :=
            fresh_serve (p := { p with jobs := rest }) script run loop ended
          refine .joins [] ?_ (by simp) fresh calls generation
          rw [line, ← pops run, List.append_nil]

theorem onset_after (script : p.script = []) (sound : p.core.Sound)
    (compiler : ∀ r ∈ p.runs, p.environment.compiler ≠ none) (hh : move ≠ .halt) :
    Onset p (p.after move) := by
  have turn := core_turn p move script
  have joins (hj : move ≠ .job) {q : Pipeline} (after : p.after move = q) {more : List Nat}
      (line : q.line = p.line ++ more) (begun : ∀ g ∈ more, g ∉ p.fresh ∧ g ≤ p.generation) :
      Onset p (p.after move) := by
    obtain ⟨fresh, calls, generation⟩ := turn.fresh sound hj hh
    exact .joins more (after ▸ line) begun fresh calls generation
  have stays (hj : move ≠ .job) {q : Pipeline} (after : p.after move = q) (line : q.line = p.line) :
      Onset p (p.after move) :=
    joins hj after (line.trans (List.append_nil _).symm) (by simp)
  cases move with
  | act action =>
      obtain ⟨more, line, begun⟩ := exists_line_act sound action
      exact joins (by simp) rfl line begun
  | halt => exact absurd rfl hh
  | editDue =>
      rcases p.editDue_cases with ⟨same, -, -⟩ | ⟨_, _, -, -, -, gives⟩
      · exact stays (by simp) same rfl
      · exact stays (by simp) gives ((line_release _ _).trans (line_trigger _))
  | answerDue =>
      cases due : p.answerDue? with
      | none => exact stays (by simp) (by rw [after, due, Option.getD_none]) rfl
      | some q =>
          obtain ⟨r, mem, hr⟩ := List.exists_of_findSome?_eq_some due
          obtain ⟨stage, waits, rfl⟩ := Option.map_eq_some_iff.mp hr
          have begun : r.stage.isCreated = false := by
            revert waits
            cases r.stage <;> simp [Stage.due?, Stage.isCreated]
          obtain ⟨more, line, begun⟩ := exists_resumed sound mem stage begun
          exact joins (by simp) (by rw [after, due, Option.getD_some]) line begun
  | clock => exact stays (by simp) rfl rfl
  | job => exact onset_job script sound compiler

/-! ## The order of the calls -/

/-- The fresh runs are in line in the order in which they were started, and nobody is in line
for a run that has not been started. -/
structure InOrder (p : Pipeline) : Prop where
  le : ∀ g ∈ p.line, g ≤ p.generation
  fresh : (p.line.filter fun g => g ∈ p.fresh) = p.fresh

theorem Starts.fresh {more : List Run} (h : Starts p q more) :
    q.core.fresh = p.core.fresh ++ more := by
  have all : more.filter (fun r => r.stage.isCreated) = more :=
    List.filter_eq_self.mpr fun r hr => by rw [(h.new r hr).1]; rfl
  rw [Core.fresh, h.runs, List.filter_append, all]
  rfl

/-- A run that begins is the first of those that are fresh. -/
theorem InOrder.eq_cons (o : p.InOrder) (sound : p.core.Sound) {r : Run} (mem : r ∈ p.core.fresh)
    {rest : List Nat} (line : p.line = r.generation :: rest) :
    p.core.fresh = r :: p.core.fresh.filter fun s => s.generation ≠ r.generation := by
  have first := o.fresh
  have fresh : r.generation ∈ p.fresh := List.mem_map_of_mem mem
  rw [line, List.filter_cons_of_pos (by simpa using fresh)] at first
  obtain ⟨s, others, hs, same, -⟩ := List.map_eq_cons_iff.mp first.symm
  have distinct : (p.core.fresh.map Run.generation).Nodup :=
    sound.distinct.sublist (List.filter_sublist.map _)
  have mem' : s ∈ p.core.fresh := hs ▸ List.mem_cons_self
  obtain rfl : s = r := sound.eq_of_generation (Core.mem_fresh.mp mem').1 (Core.mem_fresh.mp mem).1 same
  rw [hs, List.map_cons, List.nodup_cons] at distinct
  rw [hs, List.filter_cons_of_neg (by simp)]
  have kept : (others.filter fun t => t.generation ≠ s.generation) = others := by
    refine List.filter_eq_self.mpr fun t ht => ?_
    have other : t.generation ≠ s.generation := fun he => distinct.1 (he ▸ List.mem_map_of_mem ht)
    simpa using other
  rw [kept]

theorem InOrder.next (o : p.InOrder) (sound : p.core.Sound) (onset : Onset p q) : q.InOrder := by
  have keeps (h : q.core.fresh = p.core.fresh) : q.fresh = p.fresh :=
    congrArg (List.map Run.generation) h
  cases onset with
  | joins more line begun fresh calls generation =>
      constructor
      · intro g hg
        rw [line] at hg
        rw [generation]
        exact (List.mem_append.mp hg).elim (o.le g) fun hg => (begun g hg).2
      · have none : (more.filter fun g => g ∈ p.fresh) = [] :=
          List.filter_eq_nil_iff.mpr fun g hg => by simpa using (begun g hg).1
        rw [keeps fresh, line, List.filter_append, none, List.append_nil]
        exact o.fresh
  | leaves g line begun fresh calls generation =>
      constructor
      · intro g' hg
        rw [generation]
        exact o.le g' (line ▸ List.mem_cons_of_mem _ hg)
      · have others := o.fresh
        rw [line, List.filter_cons_of_neg (by simpa using begun)] at others
        rw [keeps fresh]
        exact others
  | begins r mem line fresh calls generation =>
      constructor
      · intro g hg
        rw [generation]
        exact o.le g (line ▸ List.mem_cons_of_mem _ hg)
      · have first : p.fresh = r.generation :: q.fresh := by
          have cons := congrArg (List.map Run.generation) (o.eq_cons sound mem line)
          rw [← fresh] at cons
          exact cons
        have others := o.fresh
        rw [line, List.filter_cons_of_pos (by simp [first])] at others
        have rest : (q.line.filter fun g => g ∈ p.fresh) = q.fresh :=
          (List.cons.inj (others.trans first)).2
        refine (List.filter_congr fun g hg => decide_eq_decide.mpr ⟨fun h => ?_, fun h => ?_⟩).trans rest
        · rw [first]
          exact List.mem_cons_of_mem _ h
        · exact rest ▸ List.mem_filter.mpr ⟨hg, decide_eq_true h⟩
  | starts more starts =>
      obtain ⟨line, -, new, -, generation⟩ := id starts
      have fresh : q.fresh = p.fresh ++ more.map Run.generation :=
        (congrArg (List.map Run.generation) starts.fresh).trans List.map_append
      constructor
      · intro g hg
        rw [line] at hg
        rcases List.mem_append.mp hg with old | hg
        · exact Nat.le_trans (o.le g old) generation
        · obtain ⟨r, hr, rfl⟩ := List.mem_map.mp hg
          exact (new r hr).2.2
      · -- Nobody was in line for a run that is new.
        have old : (p.line.filter fun g => g ∈ q.fresh) = p.fresh := by
          refine (List.filter_congr fun g hg => decide_eq_decide.mpr ?_).trans o.fresh
          rw [fresh, List.mem_append]
          refine ⟨fun h => h.resolve_right fun later => ?_, Or.inl⟩
          obtain ⟨r, hr, rfl⟩ := List.mem_map.mp later
          exact Nat.not_le_of_lt (new r hr).2.1 (o.le _ hg)
        have all : ((more.map Run.generation).filter fun g => g ∈ q.fresh) =
            more.map Run.generation := by
          refine List.filter_eq_self.mpr fun g hg => decide_eq_true ?_
          rw [fresh]
          exact List.mem_append_right _ hg
        rw [line, List.filter_append, old, all, fresh]

/-- Nobody calls the compiler but a run that begins, and the first to begin is the first that
was started. -/
theorem InOrder.calls_next (o : p.InOrder) (sound : p.core.Sound) (sound' : q.core.Sound)
    (onset : Onset p q) :
    q.calls ++ q.core.fresh.map Run.options =
      p.calls ++ p.core.fresh.map Run.options ++ p.started q := by
  have none (h : q.generation = p.generation) : p.started q = [] :=
    (started_core p q).symm.trans (Core.started_eq_nil sound' h)
  cases onset with
  | joins _ _ _ fresh calls generation | leaves _ _ _ fresh calls generation =>
      rw [none generation, fresh, calls, List.append_nil]
  | begins r mem line fresh calls generation =>
      rw [none generation, List.append_nil, calls, o.eq_cons sound mem line, ← fresh, List.append_assoc]
      rfl
  | starts more starts =>
      have started := Core.started_append sound starts.runs fun r hr => (starts.new r hr).2.1
      rw [← started_core, started, starts.fresh, starts.calls, List.map_append, List.append_assoc]

/-! ## Courses -/

variable {environment : Environment} {window : Int} {fragment : Text} {moves : List Move}

/-- The runs have called the compiler in the order in which they were started, up to those
that are fresh. -/
theorem calls_follow (h : new environment window fragment = .ok p) (hm : .halt ∉ moves) :
    (p.follow moves).InOrder ∧
      (p.follow moves).calls ++ (p.follow moves).core.fresh.map Run.options = p.minted moves := by
  induction moves with
  | nil =>
      obtain ⟨_, _, rfl⟩ := new_eq_ok h
      exact ⟨⟨by simp [line, follow], rfl⟩, rfl⟩
  | cons move before ih =>
      have hb := List.not_mem_of_not_mem_cons hm
      obtain ⟨inOrder, calls⟩ := ih hb
      obtain ⟨worked, -, minting⟩ := minting_follow h hb
      have chronicle := chronicle_follow h before
      have compiler : ∀ r ∈ (p.follow before).runs, (p.follow before).environment.compiler ≠ none := by
        intro r hr none
        obtain ⟨g, -, at_g⟩ := minting.options r.forCaller (mem_core_runs hr)
        rw [minting.idle none] at at_g
        cases at_g
      have onset := onset_after chronicle.script chronicle.sound compiler
        (List.ne_of_not_mem_cons hm).symm
      refine ⟨inOrder.next chronicle.sound onset, ?_⟩
      have next := inOrder.calls_next chronicle.sound (chronicle_follow h (move :: before)).sound onset
      rw [calls] at next
      exact next

/-- Where no job is left, no run is fresh. -/
theorem InOrder.fresh_eq_nil (o : p.InOrder) (drained : p.jobs = []) : p.core.fresh = [] := by
  have none : p.line = [] := by
    rw [line, drained]
    rfl
  have fresh := o.fresh
  rw [none] at fresh
  exact List.map_eq_nil_iff.mp fresh.symm

end Pipeline

end Playground
