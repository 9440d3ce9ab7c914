import Playground.Proofs.Pipeline.Attendance
import Playground.Proofs.Pipeline.Halting
import Playground.Proofs.Pipeline.Publication

/-!
# Waiting until a pipeline is idle

Whoever waits is attended to, whatever happens, and nobody is let go too early.
When nothing is in line any more, nothing is held back and no run is in flight, the
lists of two of the gates are empty, so the only gate where anyone can still stand
is that of the queue. It is open when the queue is empty. It stays shut when
triggers are left in the queue and the control loop is gone, and that is the one
case in which someone waits for what does not come.
-/

namespace Playground

/-- Which of those who wait a job is for. -/
def Job.waiter? : Job → Option Nat
  | .waiter i | .notice (.waiter i) => some i
  | _ => none

namespace Core

variable {c d : Core} {r : Run} {move : Move}

/-- A control loop that is about to stop is in line, and when it has stopped, the one
who halts the pipeline is. -/
structure Stops (c : Core) : Prop where
  cancelled : c.loop = .cancelled → .loop ∈ c.jobs
  ended : c.loop = .ended → .caller ∈ c.jobs

theorem Stops.trigger (s : c.Stops) : c.trigger.Stops := by
  simp only [Core.trigger]
  split
  · exact ⟨by simp, by simp⟩
  · exact ⟨s.cancelled, s.ended⟩

theorem Stops.pop (s : c.Stops) {job : Job} {rest : List Job} (line : c.jobs = job :: rest)
    (loop : job ≠ .loop) (caller : job ≠ .caller) : { c with jobs := rest }.Stops := by
  refine ⟨fun h => ?_, fun h => ?_⟩
  · have mem := s.cancelled h
    rw [line] at mem
    exact (List.mem_cons.mp mem).resolve_left loop.symm
  · have mem := s.ended h
    rw [line] at mem
    exact (List.mem_cons.mp mem).resolve_left caller.symm

/-- Only a control loop that goes on is cancelled. -/
theorem stops_haltLoop (l : c.Lined) (free : c.halt ≠ some .loop) : c.haltLoop.Stops := by
  unfold haltLoop
  split
  · next h => exact ⟨by simp [h], by simp [h]⟩
  · exact ⟨fun _ => List.mem_append_right _ (List.mem_singleton_self _), by simp⟩
  · next off waiting =>
      refine ⟨fun _ => ?_, by simp⟩
      cases h : c.loop with
      | off => exact absurd h off
      | waiting => exact absurd h waiting
      | created => exact l.awake (.inl h)
      | woken => exact l.awake (.inr h)
      | cancelled => exact absurd (l.halted (.inl h)) free
      | ended => exact absurd (l.halted (.inr h)) free

theorem Stops.turn (s : c.Stops) (l : c.Lined) (turn : c.Turn move d) : d.Stops := by
  have keep {e : Core} (more : List Job) (loop : d.loop = e.loop) (jobs : d.jobs = e.jobs ++ more)
      (he : e.Stops) : d.Stops := by
    refine ⟨fun h => ?_, fun h => ?_⟩
    · rw [jobs]
      exact List.mem_append_left _ (he.cancelled (loop ▸ h))
    · rw [jobs]
      exact List.mem_append_left _ (he.ended (loop ▸ h))
  cases turn with
  | still | edits | views | answers | builds | answerDue | buildDue =>
      exact ⟨s.cancelled, s.ended⟩
  | chooses | loads | fires => exact Stops.trigger ⟨s.cancelled, s.ended⟩
  | starts => exact Stops.trigger ⟨by simp, by simp⟩
  | halts free =>
      simp only [Core.beginHalt]
      split
      · refine stops_haltLoop ⟨l.waiting, l.awake, l.halted⟩ ?_
        show c.halt ≠ _
        rw [free]
        simp
      · refine ⟨fun h => ?_, fun h => ?_⟩
        · exact List.mem_append_left _ (s.cancelled h)
        · exact List.mem_append_left _ (s.ended h)
  | consumes => exact ⟨by simp, by simp⟩
  | loopEnds =>
      exact ⟨by simp, fun _ => List.mem_append_right _ (List.mem_singleton_self _)⟩
  | loopSleeps asleep line =>
      refine ⟨fun h => ?_, fun h => ?_⟩
      · rcases asleep with ha | ha | ha <;> exact absurd (ha.symm.trans h) (by simp)
      · have mem := s.ended h
        rw [line] at mem
        exact (List.mem_cons.mp mem).resolve_left (by simp)
  | serves mem served =>
      obtain ⟨more, hj, hl, -, -⟩ := served.frame
      exact keep more hl hj s
  | reaps line =>
      have hp := s.pop line (by simp) (by simp)
      exact ⟨hp.cancelled, hp.ended⟩
  | notices line =>
      obtain ⟨_, more, _, hn⟩ := notice_frame _
      exact keep more (by rw [hn]) (by rw [hn]) (s.pop line (by simp) (by simp))
  | @resumes rest line =>
      have lined : { c with jobs := rest }.Lined := l.pop line (by simp)
      unfold resume
      split
      · next h => exact stops_haltLoop lined (by rw [h]; simp)
      · exact ⟨by simp, by simp⟩
      · next _ h =>
          refine ⟨fun hl => ?_, fun hl => ?_⟩
          · exact absurd (lined.halted (.inl hl)) h
          · exact absurd (lined.halted (.inr hl)) h

end Core

namespace Pipeline

variable {p q : Pipeline} {served : Option Nat} {i j : Nat}

/-! ## Serving those who wait -/

theorem keeps_setWaiter (p : Pipeline) (i : Nat) (stage : WaiterStage) :
    Keeps (some i) p (p.setWaiter i stage) := by
  refine ⟨fun j hj => List.getElem?_set_ne fun he => hj (congrArg some he), List.prefix_rfl,
    fun _ => .inl, fun _ => .inl, fun _ => Nat.le_refl _, fun h => ⟨h.idle, h.settled, h.consumed⟩⟩

theorem getElem?_setWaiter {stage : WaiterStage} (known : i < p.waiters.length) :
    (p.setWaiter i stage).waiters[i]? = some stage := by
  rw [setWaiter, List.getElem?_set_self known]

/-- The gate of the debouncer is shut as long as an edit is held back. -/
theorem keeps_holdUntilSettled (h : p.holdUntilSettled i = some q) : Keeps (some i) p q := by
  obtain ⟨busy, rfl⟩ := holdUntilSettled_eq_some h
  have joins : Keeps (some i) p
      { p with debouncer := { p.debouncer with waiting := p.debouncer.waiting ++ [i] } } := by
    refine ⟨fun _ _ => rfl, List.prefix_rfl, fun _ hj => .inl (List.mem_append_left _ hj),
      fun _ => .inl, fun _ => Nat.le_refl _, fun calm => ⟨calm.idle, fun free => ?_, calm.consumed⟩⟩
    exact absurd (calm.idle.trans (congrArg not free)) busy
  exact joins.trans (keeps_setWaiter _ i _)

theorem keeps_holdUntilConsumed (i : Nat) (queued : p.queue ≠ []) :
    Keeps (some i) p (p.holdUntilConsumed i) := by
  have joins : Keeps (some i) p { p with queueWaiting := p.queueWaiting ++ [i] } :=
    ⟨fun _ _ => rfl, List.prefix_rfl, fun _ => .inl, fun _ hj => .inl (List.mem_append_left _ hj),
      fun _ => Nat.le_refl _, fun h => ⟨h.idle, h.settled, fun none => absurd none queued⟩⟩
  exact joins.trans (keeps_setWaiter _ i _)

/-- Who passes the gate of the debouncer finds triggers in the queue, unless nothing is to be done. -/
theorem queued_of_settled (calm : p.Calm) (settled : p.holdUntilSettled i = none)
    (busy : ¬(p.queue.isEmpty && !p.debouncer.isPending) = true) : p.queue ≠ [] := by
  intro none
  have idle : p.debouncer.idle = true := by
    unfold holdUntilSettled Debouncer.await? at settled
    split at settled
    · assumption
    · cases settled
  refine busy ?_
  rw [none, ← calm.idle, idle]
  rfl

theorem keeps_passRuns (calm : p.Calm) (i : Nat) : Keeps (some i) p (p.passRuns i) := by
  unfold passRuns
  split
  · exact (keeps_setWaiter p i _).trans (grows_watchRuns _ _).keeps
  · split
    · exact keeps_setWaiter p i _
    · next busy =>
        split
        · next h => exact keeps_holdUntilSettled h
        · next settled =>
            split
            · exact keeps_setWaiter p i _
            · exact keeps_holdUntilConsumed i (queued_of_settled calm settled busy)

theorem keeps_passQueue (calm : p.Calm) (i : Nat) : Keeps (some i) p (p.passQueue i) := by
  unfold passQueue
  split
  · exact keeps_setWaiter p i _
  · split
    · next queued =>
        refine keeps_holdUntilConsumed i fun none => ?_
        rw [none] at queued
        cases queued
    · exact keeps_passRuns calm i

theorem keeps_serveWaiter (calm : p.Calm) (i : Nat) : Keeps (some i) p (p.serveWaiter i) := by
  unfold serveWaiter
  split
  · unfold passDebouncer
    split
    · next h => exact keeps_holdUntilSettled h
    · exact keeps_passQueue calm i
  · exact keeps_passQueue calm i
  · exact keeps_passRuns calm i
  all_goals exact (Grows.refl p).keeps

theorem keeps_noticeWaiter (p : Pipeline) (i : Nat) : Keeps (some i) p (p.noticeWaiter i) := by
  unfold noticeWaiter
  split
  · exact keeps_setWaiter p i _
  · exact (keeps_setWaiter p i _).trans (grows_schedule _ _).keeps
  · exact (Grows.refl p).keeps

/-- One who begins to watch all runs is going to hear of each. -/
theorem promised_watchRuns (p : Pipeline) (i : Nat) :
    (p.watchRuns (.waiter i)).promised i = p.promised i + p.runs.length := by
  have watched := Run.sum_watching_watched (.waiter i) p.runs
  have notices : ((p.runs.filter fun r : Run => r.stage.isOver).map fun _ =>
      Job.notice (.waiter i)).count (.notice (.waiter i)) =
      (p.runs.filter fun r : Run => r.stage.isOver).length := by
    rw [List.map_const', List.count_replicate_self]
  rw [watchRuns_eq]
  show List.count _ (p.jobs ++ _) + (List.map _ (List.map _ p.runs)).sum = _
  rw [List.count_append, notices, promised]
  omega

theorem hasPlace_of_stage {stage : WaiterStage} (h : p.waiters[i]? = some stage)
    (placed : p.Placed i stage) : p.HasPlace i := by
  intro s hs
  rw [h] at hs
  cases hs
  exact placed

theorem hasPlace_done (known : i < p.waiters.length) : (p.setWaiter i .done).HasPlace i :=
  hasPlace_of_stage (getElem?_setWaiter known) trivial

theorem hasPlace_holdUntilSettled (known : i < p.waiters.length)
    (h : p.holdUntilSettled i = some q) : q.HasPlace i := by
  obtain ⟨-, rfl⟩ := holdUntilSettled_eq_some h
  exact hasPlace_of_stage (getElem?_setWaiter known)
    (.inr (List.mem_append_right _ (List.mem_singleton_self i)))

theorem hasPlace_holdUntilConsumed (known : i < p.waiters.length) :
    (p.holdUntilConsumed i).HasPlace i :=
  hasPlace_of_stage (getElem?_setWaiter known)
    (.inr (List.mem_append_right _ (List.mem_singleton_self i)))

theorem hasPlace_passRuns (known : i < p.waiters.length) : (p.passRuns i).HasPlace i := by
  unfold passRuns
  split
  · next running =>
      have stage : ((p.setWaiter i (.gathering p.runs.length)).watchRuns (.waiter i)).waiters[i]? =
          some (.gathering p.runs.length) := getElem?_setWaiter known
      have promised := promised_watchRuns (p.setWaiter i (.gathering p.runs.length)) i
      refine hasPlace_of_stage stage ⟨List.length_pos_iff.mpr fun none => ?_, ?_⟩
      · rw [none] at running
        cases running
      · rw [promised]
        exact Nat.le_add_left _ _
  · split
    · exact hasPlace_done known
    · split
      · next h => exact hasPlace_holdUntilSettled known h
      · split
        · exact hasPlace_done known
        · exact hasPlace_holdUntilConsumed known

theorem hasPlace_passQueue (known : i < p.waiters.length) : (p.passQueue i).HasPlace i := by
  unfold passQueue
  split
  · exact hasPlace_done known
  · split
    · exact hasPlace_holdUntilConsumed known
    · exact hasPlace_passRuns known

/-! ## Jobs -/

theorem mem_of_pop {job other : Job} {rest : List Job} (line : p.jobs = job :: rest)
    (hne : job ≠ other) (mem : other ∈ p.jobs) : other ∈ rest := by
  rw [line] at mem
  exact (List.mem_cons.mp mem).resolve_left hne.symm

/-- Whoever a job is not for keeps his place when it is taken out of the line. -/
theorem HasPlace.pop (a : p.HasPlace i) {job : Job} {rest : List Job}
    (line : p.jobs = job :: rest) (other : job.waiter? ≠ some i) :
    { p with jobs := rest }.HasPlace i := by
  have queues : job ≠ .waiter i := fun he => other (he ▸ rfl)
  have notices : job ≠ .notice (.waiter i) := fun he => other (he ▸ rfl)
  intro stage hstage
  have placed := a stage hstage
  cases stage with
  | start => exact mem_of_pop line queues placed
  | settled => exact placed.imp_left (mem_of_pop line queues)
  | consumed => exact placed.imp_left (mem_of_pop line queues)
  | gathering n =>
      refine ⟨placed.1, Nat.le_trans placed.2 (Nat.le_of_eq ?_)⟩
      unfold promised
      rw [line, List.count_cons_of_ne notices]
  | done => trivial

/-- Someone who is served goes to the next gate that is shut. -/
theorem HasPlace.serveWaiter (a : p.HasPlace i) {rest : List Job}
    (line : p.jobs = .waiter i :: rest) :
    ({ p with jobs := rest }.serveWaiter i).HasPlace i := by
  unfold Pipeline.serveWaiter
  have known {stage : WaiterStage} (h : p.waiters[i]? = some stage) :
      i < ({ p with jobs := rest } : Pipeline).waiters.length :=
    (List.getElem?_eq_some_iff.mp h).1
  split
  · next h =>
      unfold passDebouncer
      split
      · next hq => exact hasPlace_holdUntilSettled (known h) hq
      · exact hasPlace_passQueue (known h)
  · next h => exact hasPlace_passQueue (known h)
  · next h => exact hasPlace_passRuns (known h)
  · next n h =>
      have placed := a _ h
      refine hasPlace_of_stage h ⟨placed.1, Nat.le_trans placed.2 (Nat.le_of_eq ?_)⟩
      unfold promised
      rw [line, List.count_cons_of_ne (by simp)]
  · next h => exact hasPlace_of_stage h trivial
  · next h =>
      intro stage hstage
      exact absurd (h.symm.trans hstage) (by simp)

/-- Someone who learns that a run has ended counts down, and begins anew after the last. -/
theorem HasPlace.noticeWaiter (a : p.HasPlace i) {rest : List Job}
    (line : p.jobs = .notice (.waiter i) :: rest) :
    ({ p with jobs := rest }.noticeWaiter i).HasPlace i := by
  have known {stage : WaiterStage} (h : p.waiters[i]? = some stage) : i < p.waiters.length :=
    (List.getElem?_eq_some_iff.mp h).1
  have heard : p.promised i = { p with jobs := rest }.promised i + 1 := by
    unfold promised
    rw [line, List.count_cons_self]
    exact Nat.add_right_comm _ _ _
  unfold Pipeline.noticeWaiter
  split
  · next n h =>
      have placed := a _ h
      rw [Placed, heard] at placed
      exact hasPlace_of_stage (getElem?_setWaiter (known h))
        ⟨Nat.le_add_left _ _, Nat.le_of_succ_le_succ placed.2⟩
  · next h =>
      have stage : ({ p with jobs := rest }.setWaiter i .start).waiters[i]? = some .start :=
        getElem?_setWaiter (known h)
      exact hasPlace_of_stage stage (List.mem_append_right _ (List.mem_singleton_self _))
  · next more one =>
      intro stage hstage
      have placed := a stage hstage
      cases stage with
      | start => exact mem_of_pop line (by simp) placed
      | settled => exact placed.imp_left (mem_of_pop line (by simp))
      | consumed => exact placed.imp_left (mem_of_pop line (by simp))
      | gathering n =>
          match n, placed.1 with
          | 1, _ => exact absurd hstage one
          | n + 2, _ => exact absurd hstage (more n)
      | done => trivial

/-- Whatever job is done, nobody but the one it is for leaves his place. -/
theorem keeps_serve {job : Job} (script : p.script = [])
    (distinct : (p.runs.map Run.generation).Nodup) (calm : p.Calm)
    (ended : ∀ run ∈ p.runs, job = .reap run.generation → run.stage.isOver = true) :
    Keeps job.waiter? p (p.serve job) := by
  cases job with
  | loop => exact keeps_serveLoop p
  | run g => exact (grows_serveRun distinct g).keeps
  | reap g => exact (grows_reap fun run hr hg => ended run hr (hg ▸ rfl)).keeps
  | notice watcher =>
      cases watcher with
      | waiter i => exact keeps_noticeWaiter p i
      | caller => exact (grows_noticeCaller p).keeps
  | waiter i => exact keeps_serveWaiter calm i
  | caller => exact (grows_serveCaller script).keeps

/-! ## Courses -/

theorem distinct_of_sound (sound : p.core.Sound) : (p.runs.map Run.generation).Nodup := by
  have distinct := sound.distinct
  rw [core, List.map_map] at distinct
  exact distinct

/-- The job at the head of the line takes nobody from his place but the one it is for. -/
theorem keeps_job (script : p.script = []) (sound : p.core.Sound) (calm : p.Calm) {job : Job}
    {rest : List Job} (line : p.jobs = job :: rest) :
    Keeps job.waiter? { p with jobs := rest } ({ p with jobs := rest }.serve job) := by
  have distinct : (p.runs.map Run.generation).Nodup := distinct_of_sound sound
  refine keeps_serve script distinct ⟨calm.idle, calm.settled, calm.consumed⟩ fun run hr he => ?_
  subst he
  refine sound.reaps_over run.forCaller (mem_core_runs hr) ?_
  rw [core_line line rfl]
  exact List.mem_cons_self

/-- Nobody loses his place by a move, and nobody stands at an open gate after it. -/
theorem hasPlace_after (script : p.script = []) (sound : p.core.Sound) (calm : p.Calm)
    (placed : ∀ i, p.HasPlace i) (move : Move) :
    (p.after move).Calm ∧ ∀ i, (p.after move).HasPlace i := by
  have kept {q : Pipeline} (h : Keeps none p q) : q.Calm ∧ ∀ i, q.HasPlace i :=
    ⟨h.calm calm, fun i => h.hasPlace (by simp) (placed i)⟩
  cases move with
  | act action =>
      by_cases waits : action = .wait
      · subst waits
        refine ⟨⟨calm.idle, calm.settled, calm.consumed⟩, fun i => ?_⟩
        have grows := grows_schedule { p with waiters := p.waiters ++ [.start] }
          [.waiter p.waiters.length]
        intro stage hstage
        change (p.waiters ++ [WaiterStage.start])[i]? = some stage at hstage
        rw [List.getElem?_append] at hstage
        split at hstage
        · have keeps : Keeps none _ _ := grows.keeps
          exact keeps.placed (placed i stage hstage)
        · obtain ⟨hlt, rfl⟩ := List.getElem?_eq_some_iff.mp hstage
          rw [List.length_singleton] at hlt
          have here : i = p.waiters.length := by omega
          subst here
          simp only [Nat.sub_self, List.getElem_cons_zero]
          exact List.mem_append_right _ (List.mem_singleton_self _)
      · exact kept (keeps_act p waits)
  | halt => exact kept (keeps_after_halt p)
  | job =>
      simp only [after]
      split
      · exact ⟨calm, placed⟩
      · next job jobs line =>
          have keeps := keeps_job script sound calm line
          refine ⟨keeps.calm ⟨calm.idle, calm.settled, calm.consumed⟩, fun i => ?_⟩
          by_cases other : job.waiter? = some i
          · cases job with
            | waiter k =>
                cases other
                exact (placed _).serveWaiter line
            | notice watcher =>
                cases watcher with
                | waiter k =>
                    cases other
                    exact (placed _).noticeWaiter line
                | caller => cases other
            | _ => cases other
          · exact keeps.hasPlace other ((placed i).pop line other)
  | editDue =>
      simp only [after]
      cases due : p.editDue? with
      | none => exact ⟨calm, placed⟩
      | some q => exact kept (keeps_editDue due)
  | answerDue =>
      simp only [after]
      cases due : p.answerDue? with
      | none => exact ⟨calm, placed⟩
      | some q => exact kept (grows_answerDue due).keeps
  | clock now => exact kept (Grows.keeps (.of_same rfl rfl rfl))

variable {environment : Environment} {window : Int} {fragment : Text}

theorem hasPlace_follow (h : new environment window fragment = .ok p) (moves : List Move) :
    (p.follow moves).Calm ∧ ∀ i, (p.follow moves).HasPlace i := by
  induction moves with
  | nil =>
      have idle : p.debouncer.idle = true ∧ p.debouncer.waiting = [] := by
        unfold new Debouncer.ofWindow at h
        cases window with
        | ofNat window => cases h; exact ⟨rfl, rfl⟩
        | negSucc => cases h
      obtain ⟨debouncer, held, rfl⟩ := new_eq_ok h
      refine ⟨⟨?_, fun _ => idle.2, fun _ => rfl⟩, fun i stage hstage => ?_⟩
      · show debouncer.idle = !debouncer.held.isSome
        rw [held]
        exact idle.1
      · cases hstage
  | cons move before ih =>
      have chronicle := chronicle_follow h before
      exact hasPlace_after chronicle.script chronicle.sound ih.1 ih.2 move

theorem stops_follow (h : new environment window fragment = .ok p) (moves : List Move) :
    (p.follow moves).core.Stops := by
  induction moves with
  | nil =>
      obtain ⟨_, _, rfl⟩ := new_eq_ok h
      exact ⟨nofun, nofun⟩
  | cons move before ih =>
      exact ih.turn (orderly_follow h before).lined
        (core_turn _ move (chronicle_follow h before).script)

/-! ## Who is let go -/

/-- Nothing is held back, no trigger is left and no run is in flight. -/
def IsIdle (p : Pipeline) : Prop :=
  p.debouncer.isPending = false ∧ p.queue = [] ∧ p.runs = []

theorem IsIdle.of_empty (free : ¬(!p.runs.isEmpty) = true)
    (empty : (p.queue.isEmpty && !p.debouncer.isPending) = true) : p.IsIdle := by
  simp only [Bool.not_eq_true', Bool.not_eq_false, List.isEmpty_iff] at free
  simp only [Bool.and_eq_true, List.isEmpty_iff, Bool.not_eq_true'] at empty
  exact ⟨empty.2, empty.1, free⟩

theorem done_setWaiter {stage : WaiterStage} (waits : stage ≠ .done)
    (h : (p.setWaiter i stage).waiters[j]? = some .done) : p.waiters[j]? = some .done := by
  rw [setWaiter, List.getElem?_set] at h
  split at h
  · split at h
    · exact absurd (Option.some.inj h) waits
    · cases h
  · exact h

theorem done_holdUntilSettled (hold : p.holdUntilSettled i = some q)
    (h : q.waiters[j]? = some .done) : p.waiters[j]? = some .done := by
  obtain ⟨-, rfl⟩ := holdUntilSettled_eq_some hold
  exact done_setWaiter (by simp) h

theorem done_passRuns (h : (p.passRuns i).waiters[j]? = some .done) :
    p.waiters[j]? = some .done ∨ (p.passRuns i).loop = .off ∨ (p.passRuns i).IsIdle := by
  unfold passRuns at h ⊢
  split at h
  · exact .inl (done_setWaiter (by simp) h)
  · next free =>
      rw [if_neg free]
      split at h
      · next empty =>
          rw [if_pos empty]
          exact .inr (.inr (.of_empty free empty))
      · next busy =>
          rw [if_neg busy]
          split at h
          · next hold => exact .inl (done_holdUntilSettled hold h)
          · split at h
            · next off =>
                rw [if_pos off]
                exact .inr (.inl off)
            · exact .inl (done_setWaiter (by simp) h)

theorem done_passQueue (h : (p.passQueue i).waiters[j]? = some .done) :
    p.waiters[j]? = some .done ∨ (p.passQueue i).loop = .off ∨ (p.passQueue i).IsIdle := by
  unfold passQueue at h ⊢
  split at h
  · next off =>
      rw [if_pos off]
      exact .inr (.inl off)
  · next on =>
      rw [if_neg on]
      split at h
      · exact .inl (done_setWaiter (by simp) h)
      · next empty =>
          rw [if_neg empty]
          exact done_passRuns h

/-- Who is served is let go only when the control loop is gone, or the pipeline is idle. -/
theorem done_serveWaiter (h : (p.serveWaiter i).waiters[j]? = some .done) :
    p.waiters[j]? = some .done ∨ (p.serveWaiter i).loop = .off ∨ (p.serveWaiter i).IsIdle := by
  unfold serveWaiter at h ⊢
  split at h
  · unfold passDebouncer at h ⊢
    split at h
    · next hold => exact .inl (done_holdUntilSettled hold h)
    · exact done_passQueue h
  · exact done_passQueue h
  · exact done_passRuns h
  all_goals exact .inl h

theorem done_noticeWaiter (h : (p.noticeWaiter i).waiters[j]? = some .done) :
    p.waiters[j]? = some .done := by
  unfold noticeWaiter at h
  split at h
  · exact done_setWaiter (by simp) h
  · exact done_setWaiter (by simp) h
  · exact h

theorem done_after (script : p.script = []) (sound : p.core.Sound) (calm : p.Calm) (move : Move)
    (h : (p.after move).waiters[i]? = some .done) :
    p.waiters[i]? = some .done ∨ (p.after move).loop = .off ∨ (p.after move).IsIdle := by
  have kept {q : Pipeline} (keeps : Keeps none p q) (h : q.waiters[i]? = some .done) :
      p.waiters[i]? = some .done :=
    (keeps.waiters i (by simp)).symm.trans h
  cases move with
  | act action =>
      left
      by_cases waits : action = .wait
      · subst waits
        change (p.waiters ++ [WaiterStage.start])[i]? = some .done at h
        rw [List.getElem?_append] at h
        split at h
        · exact h
        · obtain ⟨_, start⟩ := List.getElem?_eq_some_iff.mp h
          rw [List.getElem_singleton] at start
          cases start
      · exact kept (keeps_act p waits) h
  | halt => exact .inl (kept (keeps_after_halt p) h)
  | job =>
      simp only [after] at h ⊢
      split at h
      · exact .inl h
      · next job jobs line =>
          by_cases other : job.waiter? = some i
          · cases job with
            | waiter k => exact done_serveWaiter (p := { p with jobs }) h
            | notice watcher =>
                cases watcher with
                | waiter k => exact .inl (done_noticeWaiter (p := { p with jobs }) h)
                | caller => cases other
            | _ => cases other
          · left
            rw [(keeps_job script sound calm line).waiters i other] at h
            exact h
  | editDue =>
      left
      simp only [after] at h
      cases due : p.editDue? with
      | none => rwa [due] at h
      | some q => exact kept (keeps_editDue due) (by rwa [due] at h)
  | answerDue =>
      left
      simp only [after] at h
      cases due : p.answerDue? with
      | none => rwa [due] at h
      | some q => exact kept (grows_answerDue due).keeps (by rwa [due] at h)
  | clock now => exact .inl h

/-- When nothing is in line any more, no edit is held back and no run is in flight,
everyone who waited has been let go, but for those who stand at the gate of the queue
after the control loop is gone with triggers left in it. And nobody is let go as long as
the control loop is there and an edit is held back, a trigger is left or a run is in
flight. -/
theorem waits_until_idle (h : new environment window fragment = .ok p) (moves : List Move) :
    let q := p.follow moves
    (q.jobs = [] → q.debouncer.isPending = false → q.runs = [] →
      ∀ (i : Nat) (stage : WaiterStage), q.waiters[i]? = some stage → stage = .done ∨
        stage = .consumed ∧ i ∈ q.queueWaiting ∧ q.queue ≠ [] ∧ q.loop = .off) ∧
    ∀ (move : Move) (i : Nat),
      q.waiters[i]? ≠ some .done → (q.after move).waiters[i]? = some .done →
        (q.after move).loop = .off ∨ (q.after move).debouncer.isPending = false ∧
          (q.after move).queue = [] ∧ (q.after move).runs = [] := by
  intro q
  obtain ⟨calm, hasPlace⟩ : q.Calm ∧ ∀ i, q.HasPlace i := hasPlace_follow h moves
  have chronicle := chronicle_follow h moves
  refine ⟨fun drained settled free i stage hstage => ?_, fun move i waits done => ?_⟩
  · have line : ∀ job, job ∉ q.jobs := by
      rw [drained]
      exact fun _ => List.not_mem_nil
    have placed := hasPlace i stage hstage
    cases stage with
    | start => exact absurd placed (line _)
    | settled =>
        rcases placed with placed | placed
        · exact absurd placed (line _)
        · rw [calm.settled settled] at placed
          cases placed
    | consumed =>
        have listed := placed.resolve_left (line _)
        have queued : q.queue ≠ [] := by
          intro none
          rw [calm.consumed none] at listed
          cases listed
        refine .inr ⟨rfl, listed, queued, ?_⟩
        have served : ∀ job, job ∉ q.core.jobs := by
          intro job hjob
          exact line job (List.mem_filter.mp hjob).1
        have lined := (orderly_follow h moves).lined
        have stops := stops_follow h moves
        cases hl : q.loop with
        | off => rfl
        | waiting => exact absurd (lined.waiting hl) queued
        | created => exact absurd (lined.awake (.inl hl)) (served _)
        | woken => exact absurd (lined.awake (.inr hl)) (served _)
        | cancelled => exact absurd (stops.cancelled hl) (served _)
        | ended => exact absurd (stops.ended hl) (served _)
    | gathering n =>
        have none : q.promised i = 0 := by
          unfold promised
          rw [drained, free]
          rfl
        have some := Nat.le_trans placed.1 placed.2
        omega
    | done => exact .inl rfl
  · exact (done_after chronicle.script chronicle.sound calm move done).resolve_left waits

/-- One who waits while the first run is in line is let go when it has ended. -/
theorem waits_until_idle_after_start : ∃ p, new .prompt 0 [] = .ok p ∧
    ∀ stage, (p.follow [.job, .job, .job, .job, .job, .job, .job, .job, .job, .act .wait,
      .act .start]).waiters[0]? = some stage → stage = .done := by
  refine ⟨_, rfl, fun stage hstage => ?_⟩
  rcases (@waits_until_idle _ .prompt 0 [] rfl _).1 rfl rfl rfl 0 stage hstage with
    done | ⟨-, -, queued, -⟩
  · exact done
  · exact absurd rfl queued

/-- One who waits for the first trigger to be worked off waits in vain when the pipeline is
halted before the control loop comes to it. -/
theorem waits_in_vain_after_halt : ∃ p, new .prompt 0 [] = .ok p ∧
    let q := p.follow [.job, .job, .job, .job, .halt, .act .wait, .act .start]
    q.jobs = [] ∧ q.debouncer.isPending = false ∧ q.runs = [] ∧ q.loop = .off ∧
      q.waiters = [.consumed] :=
  ⟨_, rfl, rfl, rfl, rfl, rfl, rfl⟩

end Pipeline

end Playground
