import Playground.Proofs.Pipeline.Line

/-!
# Who waits is attended to

One who waits until the pipeline is idle stands at one of three gates, and at each
there is a list that he is on: that of the debouncer, that of the queue, or those
of the runs that are to end. Leaving a gate means to be in line for a job. So he
is attended to as long as he is on the list of his gate or in line, and what is to
be shown of everything that can happen is that nobody drops off.

Most of what happens does not touch the lists at all. It adds to the line, and what
is promised to those who watch runs is kept: when a run ends, each of its watchers
gets a notice instead. Such operations are said to grow the pipeline. The others
move people from the list of a gate to the line, and these keep who waits. For both
it is enough to look at one operation at a time.
-/

namespace Playground.Pipeline

variable {p q r : Pipeline} {served : Option Nat} {i j : Nat}

/-! ## Where people wait -/

/-- How many runs one who waits is still going to hear of. -/
def promised (p : Pipeline) (i : Nat) : Nat :=
  p.jobs.count (.notice (.waiter i)) + (p.runs.map (Run.watching (.waiter i))).sum

/-- Someone who has come so far is on the list of his gate, or he is in line. -/
def Placed (p : Pipeline) (i : Nat) : WaiterStage → Prop
  | .start => .waiter i ∈ p.jobs
  | .settled => .waiter i ∈ p.jobs ∨ i ∈ p.debouncer.waiting
  | .consumed => .waiter i ∈ p.jobs ∨ i ∈ p.queueWaiting
  | .gathering n => 1 ≤ n ∧ n ≤ p.promised i
  | .done => True

/-- Someone who waits has his place. -/
def HasPlace (p : Pipeline) (i : Nat) : Prop :=
  ∀ stage, p.waiters[i]? = some stage → p.Placed i stage

/-- Nobody stands at a gate that is open. -/
structure Calm (p : Pipeline) : Prop where
  idle : p.debouncer.idle = !p.debouncer.isPending
  settled : p.debouncer.isPending = false → p.debouncer.waiting = []
  consumed : p.queue = [] → p.queueWaiting = []

/-- Who waits, and what for, but for the runs. -/
def lounge (p : Pipeline) : List WaiterStage × Debouncer Text Nat × List Trigger × List Nat :=
  (p.waiters, p.debouncer, p.queue, p.queueWaiting)

/-- The line grows, and nothing that is promised is taken back. -/
structure Grows (p q : Pipeline) : Prop where
  lounge : q.lounge = p.lounge
  jobs : p.jobs <+: q.jobs
  promised : ∀ i, p.promised i ≤ q.promised i

/-- Everyone who waits is still attended to, but for one who has just been served. -/
structure Keeps (served : Option Nat) (p q : Pipeline) : Prop where
  waiters : ∀ i : Nat, served ≠ some i → q.waiters[i]? = p.waiters[i]?
  jobs : p.jobs <+: q.jobs
  settled : ∀ i ∈ p.debouncer.waiting, i ∈ q.debouncer.waiting ∨ .waiter i ∈ q.jobs
  consumed : ∀ i ∈ p.queueWaiting, i ∈ q.queueWaiting ∨ .waiter i ∈ q.jobs
  promised : ∀ i, p.promised i ≤ q.promised i
  calm : p.Calm → q.Calm

theorem Grows.refl (p : Pipeline) : Grows p p :=
  ⟨rfl, List.prefix_rfl, fun _ => Nat.le_refl _⟩

theorem Grows.trans (h : Grows p q) (h' : Grows q r) : Grows p r :=
  ⟨h'.lounge.trans h.lounge, h.jobs.trans h'.jobs,
    fun i => Nat.le_trans (h.promised i) (h'.promised i)⟩

theorem Grows.keeps (h : Grows p q) : Keeps served p q := by
  have lounge := h.lounge
  simp only [Pipeline.lounge, Prod.mk.injEq] at lounge
  obtain ⟨waiters, debouncer, queue, queueWaiting⟩ := lounge
  refine ⟨fun i _ => by rw [waiters], h.jobs, ?_, ?_, h.promised, ?_⟩
  · intro i hi
    exact .inl (debouncer ▸ hi)
  · intro i hi
    exact .inl (queueWaiting ▸ hi)
  · rintro ⟨idle, settled, consumed⟩
    refine ⟨?_, ?_, ?_⟩
    · rw [debouncer]
      exact idle
    · rw [debouncer]
      exact settled
    · rw [queue, queueWaiting]
      exact consumed

theorem Keeps.trans (h : Keeps served p q) (h' : Keeps served q r) : Keeps served p r where
  waiters i hi := (h'.waiters i hi).trans (h.waiters i hi)
  jobs := h.jobs.trans h'.jobs
  settled i hi := by
    rcases h.settled i hi with hq | hq
    · exact h'.settled i hq
    · exact .inr (h'.jobs.subset hq)
  consumed i hi := by
    rcases h.consumed i hi with hq | hq
    · exact h'.consumed i hq
    · exact .inr (h'.jobs.subset hq)
  promised i := Nat.le_trans (h.promised i) (h'.promised i)
  calm hc := h'.calm (h.calm hc)

theorem Keeps.placed (h : Keeps served p q) {stage : WaiterStage} (placed : p.Placed i stage) :
    q.Placed i stage := by
  cases stage with
  | start => exact h.jobs.subset placed
  | settled =>
      rcases placed with placed | placed
      · exact .inl (h.jobs.subset placed)
      · exact (h.settled i placed).symm
  | consumed =>
      rcases placed with placed | placed
      · exact .inl (h.jobs.subset placed)
      · exact (h.consumed i placed).symm
  | gathering n => exact ⟨placed.1, Nat.le_trans placed.2 (h.promised i)⟩
  | done => trivial

theorem Keeps.hasPlace (h : Keeps served p q) (other : served ≠ some i) (a : p.HasPlace i) :
    q.HasPlace i := by
  intro stage hstage
  rw [h.waiters i other] at hstage
  exact h.placed (a stage hstage)

/-! ## Operations that grow the pipeline -/

/-- What keeps the lists, adds jobs and does not make runs less watched, grows the pipeline. -/
theorem Grows.of_runs (lounge : q.lounge = p.lounge) (jobs : p.jobs <+: q.jobs)
    (runs : ∀ w, (p.runs.map (Run.watching w)).sum ≤ (q.runs.map (Run.watching w)).sum) :
    Grows p q :=
  ⟨lounge, jobs, fun _ => Nat.add_le_add (jobs.sublist.count_le _) (runs _)⟩

theorem Grows.of_same (lounge : q.lounge = p.lounge) (jobs : q.jobs = p.jobs)
    (runs : q.runs = p.runs) : Grows p q :=
  .of_runs lounge (by rw [jobs]) fun _ => by rw [runs]

theorem grows_schedule (p : Pipeline) (jobs : List Job) : Grows p (p.schedule jobs) :=
  .of_runs rfl (List.prefix_append _ _) fun _ => Nat.le_refl _

theorem grows_report (p : Pipeline) (record : LogRecord) : Grows p (p.report record) :=
  .of_same rfl rfl rfl

theorem grows_settlePhase (p : Pipeline) : Grows p p.settlePhase := by
  unfold settlePhase
  split
  · exact .of_same rfl rfl rfl
  · split <;> exact .of_same rfl rfl rfl

/-- To change how far a run is takes no one off its list, unless it ends. -/
theorem grows_setStage (p : Pipeline) (generation : Nat) {stage : Stage}
    (isOpen : stage.isOver = false) : Grows p (p.setStage generation stage) := by
  refine .of_runs rfl List.prefix_rfl fun w => ?_
  rw [setStage, List.map_map]
  refine List.sum_le_sum fun s _ => ?_
  simp only [Function.comp]
  split
  · simp only [Run.watching, isOpen, Bool.false_eq_true, if_false]
    split
    · exact Nat.zero_le _
    · exact Nat.le_refl _
  · exact Nat.le_refl _

theorem grows_resume (p : Pipeline) (generation : Nat) {stage : Stage}
    (isOpen : stage.isOver = false) : Grows p (p.resume generation stage) :=
  (grows_setStage p generation isOpen).trans (grows_schedule _ _)

/-- When a run ends, those who watched it get a notice each. -/
theorem grows_finish (distinct : (p.runs.map Run.generation).Nodup) (run : Run)
    (crash : Option Failure) : Grows p (p.finish run crash) := by
  refine ⟨rfl, List.prefix_append _ _, fun i => ?_⟩
  cases found : p.run? run.generation with
  | none =>
      have same : (p.runs.map fun s => if s.generation = run.generation then
          { s with stage := .finished crash } else s) = p.runs := by
        refine (List.map_congr_left fun s hs => if_neg ?_).trans (List.map_id _)
        have none := List.find?_eq_none.mp found s hs
        simpa using none
      show p.promised i ≤ List.count _ (p.jobs ++ _) + (List.map _ (List.map _ p.runs)).sum
      rw [same, List.count_append, promised]
      omega
  | some s =>
      have mem : s ∈ p.runs := List.mem_of_find?_eq_some found
      have hs : s.generation = run.generation := by simpa using List.find?_some found
      have notices : (Job.reap run.generation :: s.watchers.map Job.notice).count
          (.notice (.waiter i)) = s.watchers.count (.waiter i) := by
        rw [List.count_cons_of_ne (by simp),
          List.count_map_of_injective _ _ fun _ _ => Job.notice.inj]
      show p.promised i ≤ List.count _ (p.jobs ++ _ :: List.map _
        (((p.run? run.generation).map Run.watchers).getD [])) + (List.map _ (List.map _ p.runs)).sum
      rw [found, Option.map_some, Option.getD_some, List.count_append, notices, promised, ← hs]
      cases isOver : s.stage.isOver with
      | false =>
          have ended := Run.sum_watching_finished (.waiter i) distinct mem isOver crash
          omega
      | true =>
          -- A run that has ended already is not counted, before or after.
          have same : (p.runs.map (fun t => if t.generation = s.generation then
              { t with stage := .finished crash } else t)).map (Run.watching (.waiter i)) =
              p.runs.map (Run.watching (.waiter i)) := by
            rw [List.map_map]
            refine List.map_congr_left fun t ht => ?_
            simp only [Function.comp]
            split
            · next he =>
                rw [List.inj_on_of_nodup_map distinct ht mem he]
                simp only [Run.watching, isOver]
                rfl
            · rfl
          rw [same]
          omega

theorem grows_dispatch (p : Pipeline) (trigger : Trigger) : Grows p (p.dispatch trigger) := by
  simp only [dispatch]
  split
  · exact grows_settlePhase p
  · refine .of_runs rfl (List.prefix_append _ _) fun w => ?_
    simp only [schedule, List.map_append, List.sum_append]
    exact Nat.le_add_right _ _

theorem grows_foldl_dispatch (queue : List Trigger) (p : Pipeline) :
    Grows p (queue.foldl dispatch p) := by
  induction queue generalizing p with
  | nil => exact .refl p
  | cons trigger rest ih => exact (grows_dispatch p trigger).trans (ih _)

theorem grows_publish (distinct : (p.runs.map Run.generation).Nodup) (run : Run)
    (result : CompileResult) (bundles : List BundleChunk) :
    Grows p (p.publish run result bundles) := by
  have shows (phase : Phase) (output : Output) (editors : List (Editor Unit))
      (subscriptions : List Subscription) :
      Grows p { p with phase, output, editors, subscriptions } :=
    .of_same rfl rfl rfl
  obtain ⟨_, h⟩ := publish_frame p run result bundles
  rw [h]
  exact (shows _ _ _ _).trans (grows_finish (by exact distinct) run _)

theorem grows_serveRun (distinct : (p.runs.map Run.generation).Nodup) (generation : Nat) :
    Grows p (p.serveRun generation) := by
  have served := runServed p generation
  generalize p.serveRun generation = q at served ⊢
  cases served with
  | idle => exact .refl p
  | @ends run latest calls log =>
      have before : Grows p { p with latest, calls, log } := .of_same rfl rfl rfl
      exact before.trans (grows_finish (by exact distinct) run none)
  | @compiles run calls =>
      have before : Grows p { p with calls } := .of_same rfl rfl rfl
      exact before.trans (grows_setStage _ run.generation rfl)
  | @bundles run calls builds =>
      have before : Grows p { p with phase := .bundling, calls, builds } := .of_same rfl rfl rfl
      exact before.trans (grows_setStage _ run.generation rfl)
  | @publishes run phase calls builds log =>
      have before : Grows p { p with phase, calls, builds, log } := .of_same rfl rfl rfl
      exact before.trans (grows_publish (by exact distinct) run _ _)

/-- Only a run that has ended is taken off the list. -/
theorem grows_reap {generation : Nat}
    (ended : ∀ run ∈ p.runs, run.generation = generation → run.stage.isOver = true) :
    Grows p (p.reap generation) := by
  have strikes : Grows p { p with runs := p.runs.filter fun r => r.generation ≠ generation } := by
    refine .of_runs rfl List.prefix_rfl fun w => Nat.le_of_eq ?_
    have all (runs : List Run)
        (ended : ∀ run ∈ runs, run.generation = generation → run.stage.isOver = true) :
        (runs.map (Run.watching w)).sum =
          ((runs.filter fun r => r.generation ≠ generation).map (Run.watching w)).sum := by
      induction runs with
      | nil => rfl
      | cons run rest ih =>
          obtain ⟨here, later⟩ := List.forall_mem_cons.mp ended
          by_cases he : run.generation = generation
          · rw [List.filter_cons_of_neg (by simpa using he), ← ih later]
            simp [Run.watching, here he]
          · rw [List.filter_cons_of_pos (by simpa using he), List.map_cons, List.map_cons,
              List.sum_cons, List.sum_cons, ih later]
    exact all p.runs ended
  unfold reap
  refine strikes.trans ?_
  simp only []
  split
  · exact (grows_report _ _).trans (grows_settlePhase _)
  · exact grows_settlePhase _

theorem grows_haltLoop (p : Pipeline) : Grows p p.haltLoop := by
  unfold haltLoop
  split
  · exact .of_same rfl rfl rfl
  · exact .of_runs rfl (List.prefix_append _ _) fun _ => Nat.le_refl _
  all_goals exact .of_same rfl rfl rfl

theorem grows_foldl_cancelRun (runs : List Run) (p : Pipeline) :
    Grows p (runs.foldl cancelRun p) := by
  induction runs generalizing p with
  | nil => exact .refl p
  | cons run rest ih =>
      refine Grows.trans ?_ (ih _)
      unfold cancelRun
      split
      · exact grows_setStage p _ rfl
      · exact grows_setStage p _ rfl
      · exact grows_setStage p _ rfl
      · exact grows_resume p _ rfl
      · exact grows_resume p _ rfl
      · exact .refl p
      · exact .refl p

theorem grows_watchRuns (p : Pipeline) (w : Watcher) : Grows p (p.watchRuns w) := by
  have watches (f : Run → Run) (h : ∀ v s, Run.watching v s ≤ Run.watching v (f s)) :
      Grows p { p with runs := p.runs.map f } := by
    refine .of_runs rfl List.prefix_rfl fun v => ?_
    rw [List.map_map]
    exact List.sum_le_sum fun s _ => h v s
  rw [watchRuns_eq]
  refine (watches _ fun v s => ?_).trans (grows_schedule _ _)
  split
  · exact Nat.le_refl _
  · next isOpen => simp [Run.watching, isOpen]

theorem grows_noticeCaller (p : Pipeline) : Grows p p.noticeCaller := by
  unfold noticeCaller
  split
  · exact .of_same rfl rfl rfl
  · exact .of_runs rfl (List.prefix_append _ _) fun _ => Nat.le_refl _
  · exact .refl p

theorem grows_serveCaller (h : p.script = []) : Grows p p.serveCaller := by
  have served := callerServed h
  generalize p.serveCaller = q at served ⊢
  cases served with
  | waits => exact .refl p
  | cancels => exact grows_haltLoop p
  | returns => exact (grows_haltLoop p).trans (.of_same rfl rfl rfl)
  | ends => exact .of_same rfl rfl rfl

theorem grows_answerDue (h : p.answerDue? = some q) : Grows p q := by
  obtain ⟨run, _, hr⟩ := List.exists_of_findSome?_eq_some h
  obtain ⟨stage, due, rfl⟩ := Option.map_eq_some_iff.mp hr
  refine grows_resume p _ ?_
  unfold Stage.due? at due
  split at due
  · split at due
    · cases due
      rfl
    · cases due
  · split at due
    · cases due
      rfl
    · cases due
  · cases due

/-! ## Operations that move people into the line -/

theorem keeps_trigger (p : Pipeline) : Keeps served p p.trigger := by
  have adds (loop : Loop) (jobs : List Job) (h : p.jobs <+: jobs) :
      Keeps served p { p with queue := p.queue ++ [⟨p.session, p.settled⟩], loop, jobs } := by
    refine ⟨fun _ _ => rfl, h, fun _ => .inl, fun _ => .inl, fun i => ?_, ?_⟩
    · exact Nat.add_le_add_right (h.sublist.count_le _) _
    · rintro ⟨idle, settled, -⟩
      exact ⟨idle, settled, by simp⟩
  simp only [trigger]
  split
  · exact adds .woken _ (List.prefix_append _ _)
  · exact adds p.loop _ List.prefix_rfl

/-- The list of the debouncer's gate goes into the line. -/
theorem keeps_release {debouncer : Debouncer Text Nat} (held : debouncer.held = none)
    (waiting : debouncer.waiting = p.debouncer.waiting) :
    Keeps served p (p.release debouncer.signal) := by
  refine ⟨fun _ _ => rfl, List.prefix_append _ _, fun i hi => .inr ?_, fun _ => .inl,
    (grows_schedule p _).promised, ?_⟩
  · rw [← waiting] at hi
    exact List.mem_append_right _ (List.mem_map_of_mem hi)
  · intro h
    refine ⟨?_, fun _ => rfl, h.consumed⟩
    show true = !debouncer.held.isSome
    rw [held]
    rfl

theorem keeps_dropEdit (p : Pipeline) : Keeps served p p.dropEdit :=
  keeps_release rfl rfl

theorem keeps_push (p : Pipeline) (phase : Phase) (source : Text) :
    Keeps served p { p with phase, debouncer := p.debouncer.push p.now source } := by
  refine ⟨fun _ _ => rfl, List.prefix_rfl, fun _ => .inl, fun _ => .inl, fun _ => Nat.le_refl _, ?_⟩
  exact fun h => ⟨rfl, nofun, h.consumed⟩

theorem grows_adopted (p : Pipeline) (session : Session) : Grows p (p.adopted session) :=
  .of_same rfl rfl rfl

theorem keeps_edit (p : Pipeline) (source : Text) : Keeps served p (p.edit source).1 := by
  rcases p.edit_cases source with h | ⟨-, -, h⟩ <;> rw [h]
  · exact (Grows.refl p).keeps
  · exact (grows_adopted p _).keeps.trans (keeps_push _ _ source)

theorem keeps_typeInto (p : Pipeline) (k : Nat) (source : Text) :
    Keeps served p (p.typeInto k source).1 :=
  typeInto_rec (motive := Keeps served p) p k source (fun _ => Grows.keeps (.of_same rfl rfl rfl))
    fun q hq => hq.trans (keeps_edit q source)

theorem keeps_setOptions (p : Pipeline) (minify strategy : Option Json)
    (transpile : Option Bool) : Keeps served p (p.setOptions minify strategy transpile).1 := by
  rcases p.setOptions_cases minify strategy transpile with h | ⟨session, -, -, -, h⟩ <;> rw [h]
  · exact (Grows.refl p).keeps
  · exact (grows_adopted p session).keeps.trans (keeps_trigger _)

theorem grows_setView (p : Pipeline) (given : Json) : Grows p (p.setView given).1 := by
  rcases p.setView_cases given with h | ⟨_, -, -, h⟩ <;> rw [h]
  · exact .refl p
  · exact grows_adopted p _

theorem keeps_load (p : Pipeline) (fragment : Text) : Keeps served p (p.load fragment).1 := by
  rcases p.load_cases fragment with ⟨-, h⟩ | ⟨-, h⟩ <;> rw [h]
  · exact (Grows.refl p).keeps
  · have settles (q : Pipeline) (settled : Text) : Grows q { q with settled } :=
      .of_same rfl rfl rfl
    exact (((grows_adopted p _).trans (settles _ _)).keeps.trans (keeps_dropEdit _)).trans
      (keeps_trigger _)

theorem keeps_start (p : Pipeline) : Keeps served p p.start := by
  rcases p.start_cases with ⟨-, h⟩ | ⟨-, h⟩ <;> rw [h]
  · exact (Grows.refl p).keeps
  · have starts : Grows p ({ p with loop := .created }.schedule [.loop]) :=
      .of_runs rfl (List.prefix_append _ _) fun _ => Nat.le_refl _
    exact starts.keeps.trans (keeps_trigger _)

/-- When the triggers have been worked off, the list of the queue's gate goes into the line. -/
theorem keeps_serveLoop (p : Pipeline) : Keeps served p p.serveLoop := by
  have consume : Keeps served p { p.consume with loop := .waiting } := by
    unfold consume
    split
    · exact Grows.keeps (.of_same rfl rfl rfl)
    · have grows := grows_foldl_dispatch p.queue { p with queue := [] }
      generalize hd : p.queue.foldl dispatch { p with queue := [] } = d at grows
      have lounge := grows.lounge
      simp only [Pipeline.lounge, Prod.mk.injEq] at lounge
      obtain ⟨waiters, debouncer, -, queueWaiting⟩ := lounge
      refine ⟨fun i _ => ?_, ?_, fun i hi => .inl ?_, fun i hi => .inr ?_, fun i => ?_, ?_⟩
      · show d.waiters[i]? = _
        rw [waiters]
      · exact grows.jobs.trans (List.prefix_append _ _)
      · show i ∈ d.debouncer.waiting
        rw [debouncer]
        exact hi
      · refine List.mem_append_right _ (List.mem_map_of_mem ?_)
        rw [queueWaiting]
        exact hi
      · exact Nat.le_trans (grows.promised i) ((grows_schedule d _).promised i)
      · rintro ⟨idle, settled, -⟩
        refine ⟨?_, ?_, fun _ => rfl⟩
        · show d.debouncer.idle = !d.debouncer.isPending
          rw [debouncer]
          exact idle
        · show d.debouncer.isPending = false → d.debouncer.waiting = []
          rw [debouncer]
          exact settled
  unfold serveLoop
  split
  · exact consume
  · exact consume
  · exact Grows.keeps (.of_runs rfl (List.prefix_append _ _) fun _ => Nat.le_refl _)
  all_goals exact (Grows.refl p).keeps

theorem keeps_beginHalt (p : Pipeline) : Keeps served p p.beginHalt := by
  have cancel : Keeps served p (p.dropEdit.runs.foldl cancelRun p.dropEdit) :=
    (keeps_dropEdit p).trans (grows_foldl_cancelRun _ _).keeps
  have halts (q : Pipeline) (halt : Option Halt) : Grows q { q with halt } :=
    .of_same rfl rfl rfl
  unfold beginHalt
  simp only []
  split
  · exact cancel.trans (grows_haltLoop _).keeps
  · exact cancel.trans ((halts _ _).trans (grows_watchRuns _ _)).keeps

theorem keeps_after_halt (p : Pipeline) : Keeps served p (p.after .halt) := by
  have leaves (q : Pipeline) (script : List Action) : Grows q { q with script } :=
    .of_same rfl rfl rfl
  have notes (q : Pipeline) : Grows q (q.note .done) :=
    .of_same rfl rfl rfl
  simp only [after]
  split
  · simp only [proceed]
    split
    · exact (keeps_beginHalt p).trans (leaves _ _).keeps
    · exact (keeps_beginHalt p).trans ((notes _).trans (leaves _ _)).keeps
  · exact (Grows.refl p).keeps

theorem keeps_editDue (h : p.editDue? = some q) : Keeps served p q := by
  obtain ⟨⟨source, debouncer⟩, taken, rfl⟩ := Option.map_eq_some_iff.mp h
  unfold Debouncer.take? at taken
  split at taken
  · split at taken
    · cases taken
      let settled : Pipeline :=
        { p with debouncer := { p.debouncer with held := none }, settled := source }
      -- Between taking the edit and the signal the gate is shut although nothing is held back.
      have triggers : Keeps served settled settled.trigger := keeps_trigger settled
      have same : settled.trigger.debouncer = { p.debouncer with held := none } := by
        simp only [trigger]
        split <;> rfl
      have queued : settled.trigger.queue ≠ [] := by
        simp only [trigger]
        split <;> simp [schedule]
      refine ⟨triggers.waiters, triggers.jobs.trans (List.prefix_append _ _), fun i hi => .inr ?_,
        fun i hi => ?_, fun i => ?_, fun _ => ⟨?_, fun _ => rfl, fun h => absurd h queued⟩⟩
      · refine List.mem_append_right _ (List.mem_map_of_mem ?_)
        show i ∈ settled.trigger.debouncer.waiting
        rw [same]
        exact hi
      · exact (triggers.consumed i hi).imp_right (List.mem_append_left _)
      · exact Nat.le_trans (triggers.promised i) ((grows_schedule _ _).promised i)
      · show true = !settled.trigger.debouncer.held.isSome
        rw [same]
        rfl
    · cases taken
  · cases taken

theorem grows_answerCompiler (p : Pipeline) (call : Nat) (reply : CompilerReply) :
    Grows p (p.answerCompiler call reply).1 := by
  simp only [answerCompiler]
  split
  · exact grows_resume p _ rfl
  · exact .refl p

theorem grows_answerEngine (p : Pipeline) (call : Nat) (engineRun : EngineRun) :
    Grows p (p.answerEngine call engineRun).1 := by
  simp only [answerEngine]
  split
  · exact grows_resume p _ rfl
  · exact .refl p

/-- Whoever acts takes nobody off a list. Someone new who waits is a case of its own. -/
theorem keeps_act (p : Pipeline) {action : Action} (other : action ≠ .wait) :
    Keeps served p (p.act action).1 := by
  cases action with
  | start => exact keeps_start p
  | stop => exact (Grows.refl p).keeps
  | edit source => exact keeps_edit p source
  | setOptions minify strategy transpile => exact keeps_setOptions p minify strategy transpile
  | setView view => exact (grows_setView p view).keeps
  | load fragment => exact keeps_load p fragment
  | reload => exact keeps_load p _
  | type k source => exact keeps_typeInto p k source
  | answerCompiler call reply => exact (grows_answerCompiler p call reply).keeps
  | answerEngine call engineRun => exact (grows_answerEngine p call engineRun).keeps
  | wait => exact absurd rfl other
  | attach | subscribe | unsubscribe | read | setEncoder =>
      exact Grows.keeps (.of_same rfl rfl rfl)

end Playground.Pipeline
