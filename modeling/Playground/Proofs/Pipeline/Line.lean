import Mathlib
import Playground.Proofs.Pipeline.Advance

/-!
# Who is going to be served

Nothing that waits is forgotten. The control loop has its job in line while it
has work to do, and so has each run that has ended, to be taken off the list.
While the pipeline is being halted, the one who halts it counts the runs that
are still to end, and the count never falls behind: every notice in line and
everyone who watches a run that has not ended is counted.

Once the pipeline has been halted nothing is counted any more, so no notice is
left over for the next time.
-/

namespace Playground

/-- How often someone still watches a run. -/
def Run.watching (w : Watcher) (r : Run) : Nat :=
  if r.stage.isOver then 0 else r.watchers.count w

/-- How often the one who halts the pipeline still watches a run. -/
def Run.callers (r : Run) : Nat :=
  if r.stage.isOver then 0 else r.watchers.count .caller

/-- Who watches a run that ends is taken off its count. -/
theorem Run.sum_watching_finished {runs : List Run} {r : Run} (w : Watcher)
    (distinct : (runs.map Run.generation).Nodup)
    (mem : r ∈ runs) (isOpen : r.stage.isOver = false) (crash : Option Failure) :
    ((runs.map fun s => if s.generation = r.generation then
      { s with stage := .finished crash } else s).map (watching w)).sum +
        r.watchers.count w = (runs.map (watching w)).sum := by
  induction runs with
  | nil => cases mem
  | cons first rest ih =>
      obtain ⟨hfirst, hrest⟩ := List.nodup_cons.mp distinct
      simp only [List.map_cons, List.sum_cons]
      rcases List.mem_cons.mp mem with rfl | hmem
      · have hsame : (rest.map fun s => if s.generation = r.generation then
            { s with stage := .finished crash } else s) = rest := by
          refine (List.map_congr_left fun s hs => if_neg fun he => ?_).trans
            (List.map_id rest)
          exact hfirst (he ▸ List.mem_map_of_mem hs)
        have hwatching : r.watching w = r.watchers.count w := by
          simp only [watching, isOpen, Bool.false_eq_true, if_false]
        rw [hsame, if_pos rfl, hwatching]
        show 0 + _ + _ = _
        omega
      · have hne : first.generation ≠ r.generation := by
          intro he
          exact hfirst (he ▸ List.mem_map_of_mem hmem)
        rw [if_neg hne, ← ih hrest hmem]
        omega

/-- Someone who begins to watch all runs is going to hear once more of each. -/
theorem Run.sum_watching_watched (w : Watcher) (runs : List Run) :
    ((runs.map fun r => if r.stage.isOver then r
      else { r with watchers := r.watchers ++ [w] }).map (watching w)).sum +
      (runs.filter fun r => r.stage.isOver).length =
      (runs.map (watching w)).sum + runs.length := by
  induction runs with
  | nil => rfl
  | cons r rest ih =>
      simp only [List.map_cons, List.sum_cons, List.filter_cons, List.length_cons]
      cases hover : r.stage.isOver with
      | true =>
          rw [if_pos rfl, if_pos rfl, List.length_cons]
          omega
      | false =>
          have hone : watching w { r with watchers := r.watchers ++ [w] } =
              r.watching w + 1 := by
            simp [watching, hover]
          rw [if_neg (by simp), if_neg (by simp), hone]
          omega

namespace Core

variable {c d : Core} {r s : Run} {move : Move}

/-- How many notices are in line or are going to be. -/
def outstanding (c : Core) : Nat :=
  c.jobs.count (.notice .caller) + (c.runs.map Run.callers).sum

/-- How many runs are still to end before halting goes on. -/
def pending (c : Core) : Nat :=
  match c.halt with
  | some (.runs n) => n
  | _ => 0

/-! ## The control loop -/

/-- The control loop waits only when there is nothing to do, it is in line when
there is, and it is only cancelled by one who waits for it to end. -/
structure Lined (c : Core) : Prop where
  waiting : c.loop = .waiting → c.queue = []
  awake : c.loop = .created ∨ c.loop = .woken → .loop ∈ c.jobs
  halted : c.loop = .cancelled ∨ c.loop = .ended → c.halt = some .loop

theorem Lined.trigger (l : c.Lined) : c.trigger.Lined := by
  simp only [Core.trigger]
  split
  · refine ⟨by simp, fun _ => ?_, by simp⟩
    exact List.mem_append_right _ (List.mem_singleton_self _)
  · next h => exact ⟨fun hw => absurd hw h, l.awake, l.halted⟩

theorem lined_haltLoop (c : Core) : c.haltLoop.Lined := by
  unfold haltLoop
  split
  · next h =>
      refine ⟨fun hw => ?_, fun hw => ?_, fun hw => ?_⟩
      · exact absurd (h.symm.trans hw) (by simp)
      · rcases hw with hw | hw <;> exact absurd (h.symm.trans hw) (by simp)
      · rcases hw with hw | hw <;> exact absurd (h.symm.trans hw) (by simp)
  · exact ⟨by simp, by simp, fun _ => rfl⟩
  · exact ⟨by simp, by simp, fun _ => rfl⟩

theorem Lined.beginHalt (l : c.Lined) (free : c.halt = none) : c.beginHalt.Lined := by
  simp only [Core.beginHalt]
  split
  · exact lined_haltLoop _
  · refine ⟨l.waiting, fun h => List.mem_append_left _ (l.awake h), fun h => ?_⟩
    exact absurd (free.symm.trans (l.halted h)) (by simp)

/-- When the job of another is done, the control loop stays in line. -/
theorem Lined.pop (l : c.Lined) {job : Job} {rest : List Job}
    (line : c.jobs = job :: rest) (other : job ≠ .loop) :
    { c with jobs := rest }.Lined := by
  refine ⟨l.waiting, fun h => ?_, l.halted⟩
  have hmem := l.awake h
  rw [line] at hmem
  exact (List.mem_cons.mp hmem).resolve_left (Ne.symm other)

theorem Lined.notice (l : c.Lined) : c.notice.Lined := by
  obtain ⟨_, _, _, hn⟩ := notice_frame c
  refine ⟨?_, fun h => ?_, fun h => ?_⟩
  · rw [hn]
    exact l.waiting
  · rw [hn] at h ⊢
    exact List.mem_append_left _ (l.awake h)
  · have hl : c.loop = .cancelled ∨ c.loop = .ended := by
      rw [hn] at h
      exact h
    have hhalt := l.halted hl
    unfold Core.notice
    rw [hhalt]
    exact hhalt

theorem Lined.resume (l : c.Lined) : c.resume.Lined := by
  unfold Core.resume
  split
  · exact lined_haltLoop c
  · exact ⟨by simp, by simp, by simp⟩
  · exact l

/-- A run that is served adds to the line, and touches neither the control loop
nor halting. -/
theorem Served.frame (served : c.Served r d) : ∃ more, d.jobs = c.jobs ++ more ∧
    d.loop = c.loop ∧ d.queue = c.queue ∧ d.halt = c.halt := by
  obtain ⟨_, hc⟩ := called_frame c r
  cases served with
  | waits | bundles =>
      rw [hc]
      exact ⟨[], (List.append_nil _).symm, rfl, rfl, rfl⟩
  | quits => exact ⟨_, rfl, rfl, rfl, rfl⟩
  | fails | superseded | publishes =>
      rw [hc]
      exact ⟨_, rfl, rfl, rfl, rfl⟩

theorem Lined.turn (l : c.Lined) (turn : c.Turn move d) : d.Lined := by
  cases turn with
  | still | edits | views | answers | builds | answerDue | buildDue =>
      exact ⟨l.waiting, l.awake, l.halted⟩
  | chooses | loads | fires => exact Lined.trigger ⟨l.waiting, l.awake, l.halted⟩
  | starts =>
      refine Lined.trigger ⟨by simp, fun _ => ?_, by simp⟩
      exact List.mem_append_right _ (List.mem_singleton_self _)
  | halts free => exact l.beginHalt free
  | consumes =>
      obtain ⟨_, _, _, hq⟩ := foldl_dispatch_frame c.queue _
      rw [hq]
      exact ⟨fun _ => rfl, by simp, by simp⟩
  | loopEnds cancelled => exact ⟨by simp, by simp, fun _ => l.halted (.inl cancelled)⟩
  | loopSleeps asleep =>
      refine ⟨l.waiting, fun h => ?_, l.halted⟩
      rcases asleep with ha | ha | ha <;> rcases h with h | h <;>
        exact absurd (ha.symm.trans h) (by simp)
  | serves mem served =>
      obtain ⟨more, hj, hl, hq, hh⟩ := served.frame
      refine ⟨fun h => hq.trans (l.waiting (hl ▸ h)), fun h => ?_, fun h => ?_⟩
      · rw [hj]
        exact List.mem_append_left _ (l.awake (hl ▸ h))
      · exact hh.trans (l.halted (hl ▸ h))
  | reaps line =>
      have hp := l.pop line (by simp)
      exact ⟨hp.waiting, hp.awake, hp.halted⟩
  | notices line => exact (l.pop line (by simp)).notice
  | resumes line => exact (l.pop line (by simp)).resume

/-! ## Runs that have ended -/

/-- A run that has ended is in line to be taken off the list. -/
def Reaped (c : Core) : Prop :=
  ∀ r ∈ c.runs, r.stage.isOver = true → .reap r.generation ∈ c.jobs

theorem Reaped.mono (h : c.Reaped) (runs : d.runs = c.runs)
    (jobs : ∀ g, .reap g ∈ c.jobs → .reap g ∈ d.jobs) : d.Reaped :=
  fun r hr hover => jobs _ (h r (runs ▸ hr) hover)

theorem Reaped.setStage (h : c.Reaped) {stage : Stage} (isOpen : stage.isOver = false)
    (generation : Nat) : (c.setStage generation stage).Reaped := by
  intro s hs hover
  obtain ⟨t, ht, rfl⟩ := List.mem_map.mp hs
  split at hover
  · rw [isOpen] at hover
    cases hover
  · next hne =>
      rw [if_neg hne]
      exact h t ht hover

theorem Reaped.finish (h : c.Reaped) (generation : Nat) (crash : Option Failure) :
    (c.finish generation crash).Reaped := by
  intro s hs hover
  obtain ⟨t, ht, rfl⟩ := List.mem_map.mp hs
  split
  · next he =>
      rw [if_pos he] at hover
      exact List.mem_append_right _ (he ▸ List.mem_cons_self)
  · next hne =>
      rw [if_neg hne] at hover
      exact List.mem_append_left _ (h t ht hover)

theorem Reaped.served (h : c.Reaped) (served : c.Served r d) : d.Reaped := by
  obtain ⟨_, hc⟩ := called_frame c r
  cases served with
  | waits | bundles =>
      rw [hc]
      exact Reaped.setStage (h.mono rfl fun _ hg => hg) rfl _
  | quits => exact h.finish _ _
  | fails | superseded | publishes =>
      rw [hc]
      exact Reaped.finish (h.mono rfl fun _ hg => hg) _ _

theorem Reaped.beginHalt (h : c.Reaped) (sound : c.Sound) : c.beginHalt.Reaped := by
  obtain ⟨_, _, watchers, more, _, hb⟩ := beginHalt_frame c
  rw [hb, sound.cancelRuns_eq]
  intro s hs hover
  simp only [List.map_map] at hs
  obtain ⟨t, ht, rfl⟩ := List.mem_map.mp hs
  simp only [Function.comp] at hover ⊢
  split at hover
  · cases hover
  · next hlive =>
      rw [if_neg hlive]
      exact List.mem_append_left _ (h t ht hover)

theorem Reaped.pop (h : c.Reaped) {job : Job} {rest : List Job}
    (line : c.jobs = job :: rest) (other : ∀ g, job ≠ .reap g) :
    { c with jobs := rest }.Reaped := by
  refine h.mono rfl fun g hg => ?_
  rw [line] at hg
  exact (List.mem_cons.mp hg).resolve_left fun he => other g he.symm

theorem Reaped.turn (h : c.Reaped) (sound : c.Sound) (turn : c.Turn move d) :
    d.Reaped := by
  have keep {e : Core} (more : List Job) (runs : d.runs = e.runs)
      (jobs : d.jobs = e.jobs ++ more) (he : e.Reaped) : d.Reaped :=
    he.mono runs fun _ hg => jobs ▸ List.mem_append_left _ hg
  cases turn with
  | still | edits | views => exact h.mono rfl fun _ hg => hg
  | chooses | loads | fires =>
      obtain ⟨_, more, _, ht⟩ := trigger_frame _
      exact keep more (by rw [ht]) (by rw [ht]) h
  | starts =>
      obtain ⟨_, more, _, ht⟩ := trigger_frame _
      exact keep (.loop :: more) (by rw [ht]) (by rw [ht]; simp) h
  | answers | builds | answerDue | buildDue => exact h.setStage rfl _
  | halts => exact h.beginHalt sound
  | @consumes rest _ line =>
      have hr := h.pop line (by simp)
      intro r hmem hover
      obtain ⟨_, _, _, hq⟩ := foldl_dispatch_frame c.queue
        { c with queue := [], jobs := rest }
      rcases mem_foldl_dispatch_runs hmem with hold | ⟨_, hnew⟩
      · show _ ∈ (c.queue.foldl dispatch { c with queue := [], jobs := rest }).jobs
        rw [hq]
        exact hr r hold hover
      · rw [hnew] at hover
        cases hover
  | @loopEnds rest _ line =>
      exact keep (e := { c with jobs := rest }) [.caller] rfl rfl
        (h.pop line (by simp))
  | loopSleeps _ line => exact h.pop line (by simp)
  | serves _ served => exact h.served served
  | @reaps generation rest line =>
      intro r hmem hover
      obtain ⟨hr, hne⟩ := List.mem_filter.mp hmem
      have hg := h r hr hover
      rw [line] at hg
      refine (List.mem_cons.mp hg).resolve_left fun he => ?_
      cases he
      simp at hne
  | notices line =>
      obtain ⟨_, more, _, hn⟩ := notice_frame _
      exact keep more (by rw [hn]) (by rw [hn]) (h.pop line (by simp))
  | resumes line =>
      obtain ⟨_, _, more, _, hr⟩ := resume_frame _
      exact keep more (by rw [hr]) (by rw [hr]) (h.pop line (by simp))

/-! ## The one who halts the pipeline -/

/-- Every notice that is in line or is going to be has been counted. -/
def Owed (c : Core) : Prop :=
  c.outstanding ≤ c.pending

theorem count_append_notice {jobs more : List Job}
    (h : ∀ job ∈ more, job ≠ .notice .caller) :
    (jobs ++ more).count (.notice .caller) = jobs.count (.notice .caller) := by
  rw [List.count_append, List.count_eq_zero.mpr fun hm => h _ hm rfl, Nat.add_zero]

theorem Owed.mono (h : c.Owed) (halt : d.halt = c.halt)
    (runs : (d.runs.map Run.callers).sum ≤ (c.runs.map Run.callers).sum)
    (jobs : d.jobs.count (.notice .caller) ≤ c.jobs.count (.notice .caller)) :
    d.Owed := by
  unfold Owed outstanding pending at *
  rw [halt]
  omega

theorem callers_setStage (sound : c.Sound) (mem : r ∈ c.runs)
    (isOpen : r.stage.isOver = false) {stage : Stage} (hs : stage.isOver = false) :
    (c.setStage r.generation stage).runs.map Run.callers = c.runs.map Run.callers := by
  rw [setStage, List.map_map]
  refine List.map_congr_left fun s hmem => ?_
  simp only [Function.comp]
  split
  · next he =>
      have hse : s.stage.isOver = false := sound.eq_of_generation hmem mem he ▸ isOpen
      simp only [Run.callers, hs, hse]
  · rfl

theorem Sound.watchersOf (h : c.Sound) (mem : r ∈ c.runs) :
    c.watchersOf r.generation = r.watchers := by
  unfold Core.watchersOf
  cases hf : c.runs.find? fun s => s.generation = r.generation with
  | none => exact absurd (List.find?_eq_none.mp hf r mem) (by simp)
  | some s =>
      have hs := List.find?_some hf
      rw [h.eq_of_generation (List.mem_of_find?_eq_some hf) mem (of_decide_eq_true hs)]
      rfl

/-- When a run ends, those who watched it are in line instead. -/
theorem outstanding_finish (sound : c.Sound) (mem : r ∈ c.runs)
    (isOpen : r.stage.isOver = false) (crash : Option Failure) :
    (c.finish r.generation crash).outstanding = c.outstanding := by
  have hcount : (c.jobs ++ Job.reap r.generation :: r.watchers.map Job.notice).count
      (.notice .caller) =
        c.jobs.count (.notice .caller) + r.watchers.count .caller := by
    have hne : Job.reap r.generation ≠ .notice .caller := by simp
    rw [List.count_append, List.count_cons_of_ne hne,
      List.count_map_of_injective _ _ fun _ _ => Job.notice.inj]
  have hsum : (List.map Run.callers _).sum + _ = (c.runs.map Run.callers).sum :=
    Run.sum_watching_finished .caller sound.distinct mem isOpen crash
  show List.count _ (c.jobs ++ Job.reap r.generation ::
    (c.watchersOf r.generation).map Job.notice) + _ = _
  rw [sound.watchersOf mem, hcount, outstanding, ← hsum, Nat.add_assoc,
    Nat.add_comm (r.watchers.count .caller)]
  rfl

/-- Who begins to halt the pipeline is going to hear once of each run. -/
theorem outstanding_watch (c : Core) :
    c.watch.outstanding = c.outstanding + c.runs.length := by
  have hjobs : (c.jobs ++ (c.runs.filter fun r => r.stage.isOver).map fun _ =>
      Job.notice .caller).count (.notice .caller) =
      c.jobs.count (.notice .caller) +
        (c.runs.filter fun r => r.stage.isOver).length := by
    rw [List.count_append, List.map_const', List.count_replicate_self]
  have h := Run.sum_watching_watched .caller c.runs
  change (List.map Run.callers _).sum + _ = (List.map Run.callers _).sum + _ at h
  show List.count _ (c.jobs ++ List.map (fun _ => Job.notice .caller)
    (c.runs.filter fun r => r.stage.isOver)) + List.sum _ = _
  rw [hjobs]
  unfold outstanding watch
  dsimp only
  omega

theorem Owed.haltLoop (h : c.outstanding = 0) : c.haltLoop.Owed := by
  obtain ⟨loop, halt, more, hmore, hl⟩ := haltLoop_frame c
  have hmore' : ∀ job ∈ more, job ≠ Job.notice .caller := by
    intro job hjob
    rw [hmore job hjob]
    simp
  have hsame : c.haltLoop.outstanding = c.outstanding := by
    rw [hl]
    exact congrArg (· + _) (count_append_notice hmore')
  unfold Owed
  rw [hsame, h]
  exact Nat.zero_le _

theorem Owed.beginHalt (h : c.Owed) (sound : c.Sound) (free : c.halt = none) :
    c.beginHalt.Owed := by
  have hzero : c.outstanding = 0 := by
    unfold Owed pending at h
    rw [free] at h
    exact Nat.le_zero.mp h
  let e : Core := { c with held := none }.cancelRuns c.runs
  have hcancel : e.outstanding = 0 := by
    have hruns : e.runs.map Run.callers = c.runs.map Run.callers := by
      show (c.cancelRuns c.runs).runs.map Run.callers = _
      rw [sound.cancelRuns_eq, List.map_map]
      refine List.map_congr_left fun r _ => ?_
      simp only [Function.comp]
      split
      · next hlive =>
          simp only [Run.callers, isOver_of_isLive hlive]
          rfl
      · rfl
    rw [← hzero]
    exact congrArg (fun l => c.jobs.count (.notice .caller) + List.sum l) hruns
  simp only [Core.beginHalt]
  split
  · exact Owed.haltLoop hcancel
  · show ({ e with halt := some (.runs e.runs.length) } : Core).watch.outstanding ≤ _
    rw [outstanding_watch]
    exact Nat.le_of_eq ((congrArg (· + _) hcancel).trans (Nat.zero_add _))

theorem Owed.served (h : c.Owed) (sound : c.Sound) (mem : r ∈ c.runs)
    (served : c.Served r d) : d.Owed := by
  have isOpen := served.isOver
  obtain ⟨more, _, _, _, hhalt⟩ := served.frame
  have hpending : d.pending = c.pending := by unfold pending; rw [hhalt]
  suffices hsame : d.outstanding = c.outstanding by
    unfold Owed
    rw [hsame, hpending]
    exact h
  obtain ⟨calls, hc⟩ := called_frame c r
  have hfinish (e : Core) (runs : e.runs = c.runs) (jobs : e.jobs = c.jobs)
      (he : e.Sound) (crash : Option Failure) :
      (e.finish r.generation crash).outstanding = c.outstanding := by
    rw [outstanding_finish he (runs ▸ mem) isOpen]
    unfold outstanding
    rw [runs, jobs]
  have hstage (stage : Stage) (hs : stage.isOver = false) :
      (c.setStage r.generation stage).outstanding = c.outstanding := by
    unfold outstanding
    rw [callers_setStage sound mem isOpen hs]
    rfl
  cases served with
  | waits | bundles =>
      rw [hc]
      exact hstage _ rfl
  | quits => exact hfinish c rfl rfl sound none
  | superseded =>
      rw [hc]
      exact hfinish _ rfl rfl (sound.mono rfl rfl rfl fun _ hg => hg) none
  | fails =>
      rw [hc]
      exact hfinish _ rfl rfl (sound.mono rfl rfl rfl fun _ hg => hg) none
  | @publishes result bundles crash builds =>
      rw [hc]
      have hs := hfinish { c with calls, builds } rfl rfl
        (sound.mono rfl rfl rfl fun _ hg => hg) crash
      exact hs

theorem sum_callers_foldl_dispatch (queue : List Trigger) (c : Core) :
    ((queue.foldl dispatch c).runs.map Run.callers).sum =
      (c.runs.map Run.callers).sum := by
  induction queue generalizing c with
  | nil => rfl
  | cons trigger rest ih =>
      rw [List.foldl_cons, ih]
      unfold dispatch
      split
      · rfl
      · simp [mint, Run.callers, Stage.isOver]

theorem Owed.notice (h : c.outstanding + 1 ≤ c.pending) : c.notice.Owed := by
  unfold pending at h
  unfold Core.notice Owed
  split
  · next n hn =>
      rw [hn] at h
      exact Nat.le_of_succ_le_succ h
  · next hn =>
      rw [hn] at h
      have hcount : (c.jobs ++ [Job.caller]).count (Job.notice .caller) =
          c.jobs.count (.notice .caller) := count_append_notice (by simp)
      show List.count _ _ + _ ≤ 0
      rw [hcount]
      exact Nat.le_of_succ_le_succ h
  · exact Nat.le_of_succ_le h

theorem Owed.resume (h : c.Owed) : c.resume.Owed := by
  unfold Core.resume
  split
  · next hn =>
      unfold Owed pending at h
      rw [hn] at h
      exact Owed.haltLoop (Nat.le_zero.mp h)
  · next hn =>
      unfold Owed pending at h
      rw [hn] at h
      exact h
  · exact h

theorem Owed.turn (h : c.Owed) (sound : c.Sound) (turn : c.Turn move d) : d.Owed := by
  have keep {e : Core} (more : List Job) (hmore : ∀ job ∈ more, job ≠ .notice .caller)
      (halt : d.halt = e.halt) (runs : d.runs = e.runs)
      (jobs : d.jobs = e.jobs ++ more) (he : e.Owed) : d.Owed :=
    he.mono halt (by rw [runs]) (by rw [jobs, count_append_notice hmore])
  have pop {job : Job} {rest : List Job} (line : c.jobs = job :: rest) :
      { c with jobs := rest }.Owed := by
    refine h.mono rfl (Nat.le_refl _) ?_
    rw [line]
    exact (List.sublist_cons_self job rest).count_le _
  have loops {more : List Job} (hm : ∀ job ∈ more, job = Job.loop) :
      ∀ job ∈ more, job ≠ .notice .caller := by
    intro job hjob
    rw [hm job hjob]
    simp
  cases turn with
  | still | edits | views => exact h
  | chooses | loads | fires =>
      obtain ⟨_, more, hmore, ht⟩ := trigger_frame _
      exact keep (e := c) more (loops hmore) (by rw [ht]) (by rw [ht]) (by rw [ht]) h
  | starts =>
      obtain ⟨_, more, hmore, ht⟩ := trigger_frame _
      refine keep (e := c) (.loop :: more) (loops ?_) (by rw [ht]) (by rw [ht])
        (by rw [ht]; simp) h
      intro job hjob
      exact (List.mem_cons.mp hjob).elim id (hmore job)
  | answers mem waits | answerDue mem waits =>
      refine h.mono rfl ?_ (Nat.le_refl _)
      rw [callers_setStage sound mem (by rw [waits]; rfl) rfl]
  | builds mem waits | buildDue mem waits =>
      refine h.mono rfl ?_ (Nat.le_refl _)
      rw [callers_setStage sound mem (by rw [waits]; rfl) rfl]
  | halts free => exact h.beginHalt sound free
  | @consumes rest _ line =>
      obtain ⟨_, _, _, hq⟩ := foldl_dispatch_frame c.queue
        { c with queue := [], jobs := rest }
      refine (pop line).mono (by rw [hq]) ?_ (by rw [hq])
      exact Nat.le_of_eq
        (sum_callers_foldl_dispatch c.queue { c with queue := [], jobs := rest })
  | @loopEnds rest _ line =>
      exact keep (e := { c with jobs := rest }) [.caller] (by simp) rfl rfl rfl
        (pop line)
  | loopSleeps _ line => exact pop line
  | serves mem served => exact h.served sound mem served
  | reaps line =>
      refine (pop line).mono rfl ?_ (Nat.le_refl _)
      exact (List.filter_sublist.map _).sum_le_sum fun _ _ => Nat.zero_le _
  | @notices rest line =>
      refine Owed.notice (Nat.le_trans (Nat.le_of_eq ?_) h)
      unfold outstanding
      rw [line, List.count_cons_self]
      exact Nat.add_right_comm _ _ _
  | resumes line => exact (pop line).resume

/-- Nothing that waits is forgotten. -/
structure Orderly (c : Core) : Prop where
  lined : c.Lined
  reaped : c.Reaped
  owed : c.Owed

theorem Orderly.turn (o : c.Orderly) (sound : c.Sound) (turn : c.Turn move d) :
    d.Orderly where
  lined := o.lined.turn turn
  reaped := o.reaped.turn sound turn
  owed := o.owed.turn sound turn

/-- Once the pipeline has been halted no notice is left over. -/
theorem Orderly.notice_not_mem (o : c.Orderly) (free : c.halt = none) :
    Job.notice .caller ∉ c.jobs := by
  have h := o.owed
  unfold Owed outstanding pending at h
  rw [free] at h
  exact List.count_eq_zero.mp (Nat.add_eq_zero_iff.mp (Nat.le_zero.mp h)).1

end Core

end Playground
