import Playground.Proofs.Pipeline.Line
import Playground.Proofs.Pipeline.Provenance

/-!
# Halting a pipeline

A pipeline that has been halted ought to be at rest: no run is in flight, and
until the next start nobody calls the compiler or replaces the output. Whether
it is depends on what the control loop finds while the runs come to their end.
The loop is cancelled only after that, so a trigger that was still queued when
halting began may start a run that nobody cancels.

The condition is therefore on the moment when halting begins. If no run is in
flight the loop is cancelled at once, and if the queue asks for nothing new it
does no harm. In both cases the pipeline comes to rest. In all others the last
run of the queue is left over, unless its compiler is quick enough to end it
before the loop is cancelled.
-/

namespace Playground

/-- Whether a move asks for nothing new: it neither starts nor halts the
pipeline, and it leaves the document, the options and the session alone. -/
def Move.isQuiet : Move → Bool
  | .halt | .act .start => false
  | move => !move.isInput

theorem Move.not_isInput_of_isQuiet {move : Move} (h : move.isQuiet = true) :
    ¬ move.isInput = true := by
  intro hi
  unfold isQuiet at h
  split at h
  · cases h
  · cases h
  · rw [hi] at h
    cases h

namespace Core

variable {c d : Core} {r s : Run} {move : Move}

/-! ## At rest -/

/-- No run is in flight, and the control loop works nothing off any more. -/
structure AtRest (c : Core) : Prop where
  runs : c.runs = []
  loop : c.loop = .off ∨ c.loop = .cancelled ∨ c.loop = .ended

theorem AtRest.trigger (a : c.AtRest) : c.trigger.AtRest := by
  have hl : c.loop ≠ .waiting := by
    rintro h
    rcases a.loop with hl | hl | hl <;> exact absurd (hl.symm.trans h) (by simp)
  simp only [Core.trigger]
  exact ⟨a.runs, a.loop⟩

theorem atRest_haltLoop (h : c.runs = []) : c.haltLoop.AtRest := by
  unfold haltLoop
  split
  · next hl => exact ⟨h, .inl hl⟩
  · exact ⟨h, .inr (.inl rfl)⟩
  · exact ⟨h, .inr (.inl rfl)⟩

theorem beginHalt_of_nil (h : c.runs = []) :
    c.beginHalt = { c with held := none }.haltLoop := by
  have hc : { c with held := none }.cancelRuns c.runs = { c with held := none } := by
    simp only [cancelRuns, h, List.map_nil]
  simp only [beginHalt, hc]
  exact if_pos (show c.runs.isEmpty = true by rw [h]; rfl)

/-- A pipeline at rest stays so until someone starts it. -/
theorem AtRest.turn (a : c.AtRest) (turn : c.Turn move d) (hm : move ≠ .act .start) :
    d.AtRest ∧ d.calls = c.calls ∧ d.output = c.output := by
  have nobody {r : Run} (mem : r ∈ c.runs) : False := by
    rw [a.runs] at mem
    cases mem
  have triggers (e : Core) (he : e.AtRest) (calls : e.calls = c.calls)
      (output : e.output = c.output) : e.trigger.AtRest ∧ e.trigger.calls = c.calls ∧
        e.trigger.output = c.output := by
    obtain ⟨_, _, _, ht⟩ := trigger_frame e
    refine ⟨he.trigger, ?_, ?_⟩
    · rw [ht]; exact calls
    · rw [ht]; exact output
  cases turn with
  | still => exact ⟨a, rfl, rfl⟩
  | edits | views | loopSleeps => exact ⟨⟨a.runs, a.loop⟩, rfl, rfl⟩
  | chooses | loads | fires => exact triggers _ ⟨a.runs, a.loop⟩ rfl rfl
  | starts => exact absurd rfl hm
  | answers mem | builds mem | answerDue mem | buildDue mem | serves mem =>
      exact (nobody mem).elim
  | halts =>
      obtain ⟨_, _, _, _, _, hb⟩ := beginHalt_frame c
      refine ⟨?_, by rw [hb]; rfl, by rw [hb]; rfl⟩
      rw [beginHalt_of_nil a.runs]
      exact atRest_haltLoop a.runs
  | consumes awake =>
      rcases awake with h | h <;> rcases a.loop with hl | hl | hl <;>
        exact absurd (hl.symm.trans h) (by simp)
  | loopEnds => exact ⟨⟨a.runs, .inr (.inr rfl)⟩, rfl, rfl⟩
  | reaps =>
      refine ⟨⟨?_, a.loop⟩, rfl, rfl⟩
      simp only [strike, a.runs, List.filter_nil]
  | notices =>
      obtain ⟨_, _, _, hn⟩ := notice_frame _
      rw [hn]
      exact ⟨⟨a.runs, a.loop⟩, rfl, rfl⟩
  | @resumes rest =>
      obtain ⟨_, _, _, _, hr⟩ := resume_frame { c with jobs := rest }
      refine ⟨?_, by rw [hr], by rw [hr]⟩
      unfold resume
      split
      · exact atRest_haltLoop a.runs
      · exact ⟨a.runs, .inl rfl⟩
      · exact ⟨a.runs, a.loop⟩

/-! ## Nothing that is queued is new -/

/-- A run that was cancelled, when it is served, just ends. -/
theorem Served.of_cancelled (served : c.Served r d) (h : r.stage = .cancelled) :
    d = c.finish r.generation none := by
  have takes {reply : CompilerReply} (ht : c.Takes r reply) : False := by
    rcases ht with hs | ⟨hs, _⟩ <;> rw [h] at hs <;> cases hs
  cases served with
  | waits created => rw [h] at created; cases created
  | fails ht => exact (takes ht).elim
  | superseded live => rw [h] at live; cases live
  | bundles ht => exact (takes ht).elim
  | publishes yields =>
      cases yields with
      | modules ht => exact (takes ht).elim
      | atOnce ht => exact (takes ht).elim
      | bundled stage => rw [h] at stage; cases stage
  | quits => rfl

/-- A run that was cancelled or has ended does not wait for the compiler. -/
theorem not_compiling (h : r.stage = .cancelled ∨ r.stage.isOver = true)
    (await : Await CompilerReply) : r.stage ≠ .compiling await := by
  intro hs
  rw [hs] at h
  rcases h with h | h <;> cases h

/-- A run that was cancelled or has ended does not wait for the engine. -/
theorem not_bundling (h : r.stage = .cancelled ∨ r.stage.isOver = true)
    (result : CompileResult) (await : Await EngineRun) :
    r.stage ≠ .bundling result await := by
  intro hs
  rw [hs] at h
  rcases h with h | h <;> cases h

/-- Of the runs that were cancelled or have ended only those are served that were
cancelled. -/
theorem Served.cancelled (served : c.Served r d)
    (h : r.stage = .cancelled ∨ r.stage.isOver = true) : r.stage = .cancelled := by
  refine h.resolve_right fun hover => ?_
  rw [served.isOver] at hover
  cases hover

/-- All runs in flight have been cancelled or have ended, and the one who halts
the pipeline hears of each after it was taken off the list. What is queued is to
be skipped. -/
structure Stopping (c : Core) : Prop where
  halt : ∃ n, c.halt = some (.runs n)
  held : c.held = none
  skips : ∀ trigger ∈ c.queue, c.latest = some (c.optionsFor trigger)
  runs : ∀ r ∈ c.runs, r.stage = .cancelled ∧ .caller ∈ r.watchers ∨
    r.stage.isOver = true ∧ [.reap r.generation, .notice .caller].Sublist c.jobs

/-- A queue that is to be skipped is skipped. -/
theorem foldl_dispatch_of_skips {queue : List Trigger}
    (h : ∀ trigger ∈ queue, c.latest = some (c.optionsFor trigger)) :
    queue.foldl dispatch c = c := by
  induction queue with
  | nil => rfl
  | cons trigger rest ih =>
      have hd : c.dispatch trigger = c :=
        if_pos (.inr (h trigger List.mem_cons_self))
      rw [List.foldl_cons, hd]
      exact ih fun t ht => h t (List.mem_cons_of_mem _ ht)

/-- Whoever waits for a cancelled run is counted among those who are owed. -/
theorem sum_callers_pos (mem : r ∈ c.runs) (hs : r.stage = .cancelled)
    (hw : .caller ∈ r.watchers) : 0 < (c.runs.map Run.callers).sum := by
  have hle : r.callers ≤ (c.runs.map Run.callers).sum :=
    List.le_sum_of_mem (List.mem_map_of_mem mem)
  have hpos : 0 < r.callers := by
    simp only [Run.callers, hs, Stage.isOver, Bool.false_eq_true, if_false]
    exact List.count_pos_iff.mpr hw
  exact Nat.lt_of_lt_of_le hpos hle

/-- When nothing is to be waited for any more, no run is left. -/
theorem Stopping.runs_eq_nil (s : c.Stopping) (owed : c.Owed)
    (halt : c.halt = some (.runs 0)) : c.runs = [] := by
  unfold Owed outstanding pending at owed
  rw [halt] at owed
  obtain ⟨hjobs, hsum⟩ := Nat.add_eq_zero_iff.mp (Nat.le_zero.mp owed)
  refine List.eq_nil_iff_forall_not_mem.mpr fun r hr => ?_
  rcases s.runs r hr with ⟨hs, hw⟩ | ⟨_, hsub⟩
  · have hpos := sum_callers_pos hr hs hw
    exact absurd hsum (Nat.ne_of_gt hpos)
  · exact List.count_eq_zero.mp hjobs (hsub.subset (by simp))

/-- What was in line stays in line while other jobs are done. -/
theorem sublist_of_cons_sublist {job first : Job} {more rest : List Job}
    (h : (first :: more).Sublist (job :: rest)) (hne : first ≠ job) :
    (first :: more).Sublist rest := by
  cases h with
  | cons _ h => exact h
  | cons_cons _ _ => exact absurd rfl hne

theorem Stopping.finish (s : c.Stopping) (h : r.stage = .cancelled) (mem : r ∈ c.runs)
    (sound : c.Sound) : (c.finish r.generation none).Stopping := by
  have hw := sound.watchersOf mem
  refine ⟨s.halt, s.held, s.skips, fun t ht => ?_⟩
  obtain ⟨u, hu, rfl⟩ := List.mem_map.mp ht
  have hjobs : (c.finish r.generation none).jobs =
      c.jobs ++ .reap r.generation :: r.watchers.map .notice := by
    rw [← hw]
    rfl
  rw [hjobs]
  split
  · next he =>
      have hcaller : .caller ∈ r.watchers := by
        rcases s.runs r mem with ⟨_, hc⟩ | ⟨hover, _⟩
        · exact hc
        · rw [h] at hover
          cases hover
      refine .inr ⟨rfl, ?_⟩
      have hnotice : Job.notice .caller ∈ r.watchers.map Job.notice :=
        List.mem_map_of_mem hcaller
      show [Job.reap u.generation, .notice .caller].Sublist _
      rw [he]
      exact ((List.singleton_sublist.mpr hnotice).cons_cons _).trans
        (List.sublist_append_right _ _)
  · rcases s.runs u hu with hc | ⟨hover, hsub⟩
    · exact .inl hc
    · exact .inr ⟨hover, hsub.trans (List.sublist_append_left _ _)⟩

/-- While the pipeline is being halted, and as long as nobody asks for anything
new, it goes on being halted or comes to rest. -/
theorem Stopping.turn (s : c.Stopping) (sound : c.Sound) (owed : c.Owed)
    (quiet : move.isQuiet = true) (turn : c.Turn move d) : d.Stopping ∨ d.AtRest := by
  have input := Move.not_isInput_of_isQuiet quiet
  have quits {r : Run} (mem : r ∈ c.runs) :
      r.stage = .cancelled ∨ r.stage.isOver = true :=
    (s.runs r mem).imp And.left And.left
  have pop {job : Job} {rest : List Job} (line : c.jobs = job :: rest)
      (hr : ∀ r ∈ c.runs, job ≠ .reap r.generation) :
      { c with jobs := rest }.Stopping := by
    refine ⟨s.halt, s.held, s.skips, fun r mem => ?_⟩
    rcases s.runs r mem with h | ⟨hover, hsub⟩
    · exact .inl h
    · rw [line] at hsub
      exact .inr ⟨hover, sublist_of_cons_sublist hsub (hr r mem).symm⟩
  cases turn with
  | still => exact .inl s
  | edits _ _ h | chooses _ _ h | loads _ h => exact absurd h input
  | views => exact .inl ⟨s.halt, s.held, s.skips, s.runs⟩
  | starts | halts => cases quiet
  | answers mem waits | answerDue mem waits =>
      exact absurd waits (not_compiling (quits mem) _)
  | builds mem waits | buildDue mem waits =>
      exact absurd waits (not_bundling (quits mem) _ _)
  | @consumes rest _ line =>
      have hskip := foldl_dispatch_of_skips (c := { c with queue := [], jobs := rest })
        s.skips
      rw [hskip]
      have hp := pop line (by simp)
      exact .inl ⟨hp.halt, hp.held, by simp, hp.runs⟩
  | @loopEnds rest _ line =>
      have hp := pop line (by simp)
      refine .inl ⟨hp.halt, hp.held, hp.skips, fun r mem => ?_⟩
      rcases hp.runs r mem with h | ⟨hover, hsub⟩
      · exact .inl h
      · exact .inr ⟨hover, hsub.trans (List.sublist_append_left _ _)⟩
  | loopSleeps _ line => exact .inl (pop line (by simp))
  | @serves r _ mem served =>
      have hs := served.cancelled (quits mem)
      rw [served.of_cancelled hs]
      exact .inl (s.finish hs mem sound)
  | @reaps generation rest line =>
      refine .inl ⟨s.halt, s.held, s.skips, fun r hr => ?_⟩
      obtain ⟨mem, hne⟩ := List.mem_filter.mp hr
      rcases s.runs r mem with h | ⟨hover, hsub⟩
      · exact .inl h
      · rw [line] at hsub
        refine .inr ⟨hover, sublist_of_cons_sublist hsub fun he => ?_⟩
        cases he
        simp at hne
  | @notices rest line =>
      have hp := pop line (by simp)
      obtain ⟨n, hn⟩ := s.halt
      obtain ⟨halt, more, _, he⟩ := notice_frame { c with jobs := rest }
      have hhalt : ∃ n,
          ({ c with jobs := rest } : Core).notice.halt = some (.runs n) := by
        unfold notice
        split
        · exact ⟨_, rfl⟩
        · exact ⟨_, rfl⟩
        · exact ⟨n, hn⟩
      refine .inl ⟨hhalt, ?_, ?_, fun r mem => ?_⟩
      · rw [he]; exact hp.held
      · rw [he]; exact hp.skips
      · rw [he] at mem ⊢
        rcases hp.runs r mem with h | ⟨hover, hsub⟩
        · exact .inl h
        · exact .inr ⟨hover, hsub.trans (List.sublist_append_left _ _)⟩
  | @resumes rest line =>
      unfold resume
      split
      · next h => exact .inr (atRest_haltLoop (s.runs_eq_nil owed h))
      · next h =>
          obtain ⟨n, hn⟩ := s.halt
          exact absurd (hn.symm.trans h) (by simp)
      · exact .inl (pop line (by simp))
  | fires due => exact absurd (s.held.symm.trans due) (by simp)

/-! ## Something that is queued is new -/

/-- A run in flight waits for the compiler, or is about to call it, and it is the
latest. The control loop does not work. -/
structure LeftOver (c : Core) : Prop where
  run : ∃ r ∈ c.runs, r.generation = c.generation ∧
    (r.stage = .created ∨ ∃ call, r.stage = .compiling (.held call))
  loop : c.loop ≠ .created ∧ c.loop ≠ .woken
  held : c.held = none

/-- The control loop is going to find something new in the queue before the one
who halts the pipeline goes on. -/
structure Pressed (c : Core) : Prop where
  halt : ∃ n, c.halt = some (.runs (n + 1))
  loop : c.loop = .created ∨ c.loop = .woken
  held : c.held = none
  new : ∃ trigger ∈ c.queue, c.latest ≠ some (c.optionsFor trigger)
  line : ∃ pre post, c.jobs = pre ++ .loop :: post ∧ .notice .caller ∉ pre
  runs : ∀ r ∈ c.runs, r.stage = .cancelled ∨ r.stage.isOver = true

/-- A compiler that answers only when it is told to. -/
def Waits (c : Core) : Prop :=
  ∃ compiler, c.environment.compiler = some compiler ∧ ∀ o, compiler o = .onRequest

/-- Only a control loop that works starts runs. -/
theorem Turn.generation_eq (turn : c.Turn move d)
    (asleep : c.loop ≠ .created ∧ c.loop ≠ .woken) : d.generation = c.generation := by
  cases turn with
  | still | edits | views | answers | builds | loopEnds | loopSleeps | reaps
  | answerDue | buildDue => rfl
  | chooses | loads | starts | fires =>
      obtain ⟨_, _, _, ht⟩ := trigger_frame _
      rw [ht]
  | halts =>
      obtain ⟨_, _, _, _, _, hb⟩ := beginHalt_frame c
      rw [hb]
      rfl
  | consumes awake => exact (awake.elim asleep.1 asleep.2).elim
  | serves mem served =>
      have hcalled (r : Run) : (c.called r).generation = c.generation := by
        obtain ⟨_, hc⟩ := called_frame c r
        rw [hc]
      cases served with
      | quits => rfl
      | _ => exact hcalled _
  | notices =>
      obtain ⟨_, _, _, hn⟩ := notice_frame _
      rw [hn]
  | resumes =>
      obtain ⟨_, _, _, _, hr⟩ := resume_frame _
      rw [hr]

/-- While nobody asks for anything, a loop that does not work stays so, and no
edit is held back. -/
theorem Turn.stays_asleep (turn : c.Turn move d) (quiet : move.isQuiet = true)
    (asleep : c.loop ≠ .created ∧ c.loop ≠ .woken) (held : c.held = none) :
    (d.loop ≠ .created ∧ d.loop ≠ .woken) ∧ d.held = none := by
  have input := Move.not_isInput_of_isQuiet quiet
  have hhalt (e : Core) (ha : e.loop ≠ .created ∧ e.loop ≠ .woken)
      (he : e.held = none) :
      (e.haltLoop.loop ≠ .created ∧ e.haltLoop.loop ≠ .woken) ∧
        e.haltLoop.held = none := by
    unfold haltLoop
    split
    · exact ⟨ha, he⟩
    · exact ⟨⟨by simp, by simp⟩, he⟩
    · exact ⟨⟨by simp, by simp⟩, he⟩
  cases turn with
  | still | views | answers | builds | loopSleeps | reaps | answerDue | buildDue =>
      exact ⟨asleep, held⟩
  | edits _ _ h | chooses _ _ h | loads _ h => exact absurd h input
  | starts | halts => cases quiet
  | consumes awake => exact (awake.elim asleep.1 asleep.2).elim
  | loopEnds => exact ⟨⟨by simp, by simp⟩, held⟩
  | serves mem served =>
      have hcalled (r : Run) : ((c.called r).loop ≠ .created ∧
          (c.called r).loop ≠ .woken) ∧ (c.called r).held = none := by
        obtain ⟨_, hc⟩ := called_frame c r
        rw [hc]
        exact ⟨asleep, held⟩
      cases served with
      | quits => exact ⟨asleep, held⟩
      | _ => exact hcalled _
  | notices =>
      obtain ⟨_, _, _, hn⟩ := notice_frame _
      rw [hn]
      exact ⟨asleep, held⟩
  | @resumes rest =>
      unfold resume
      split
      · exact hhalt { c with jobs := rest } asleep held
      · exact ⟨⟨by simp, by simp⟩, held⟩
      · exact ⟨asleep, held⟩
  | fires due => exact absurd (held.symm.trans due) (by simp)

/-- Nobody but the compiler ends the run that is left over. -/
theorem LeftOver.turn (l : c.LeftOver) (sound : c.Sound) (waits : c.Waits)
    (quiet : move.isQuiet = true)
    (untold : ∀ call reply, move ≠ .act (.answerCompiler call reply))
    (turn : c.Turn move d) : d.LeftOver := by
  obtain ⟨compiler, given, onRequest⟩ := waits
  obtain ⟨r, mem, hg, hs⟩ := l.run
  obtain ⟨loop, held⟩ := turn.stays_asleep quiet l.loop l.held
  refine ⟨?_, loop, held⟩
  rw [turn.generation_eq l.loop]
  have takes {reply : CompilerReply} (ht : c.Takes r reply) : False := by
    rcases ht with h | ⟨_, compiler', given', h⟩
    · rcases hs with hs | ⟨_, hs⟩ <;> rw [h] at hs <;> cases hs
    · rw [given] at given'
      cases given'
      rw [onRequest] at h
      cases h
  have isOpen : r.stage.isOver = false := by
    rcases hs with hs | ⟨_, hs⟩ <;> rw [hs] <;> rfl
  rcases turn.survives sound mem isOpen with ⟨s, hmem, hgs, hopen⟩ | concludes
  · refine ⟨s, hmem, hgs.trans hg, ?_⟩
    rcases turn.continues sound hmem with ⟨t, ht, hgt, _, hstage⟩ | ⟨hlt, _⟩
    · rw [sound.eq_of_generation ht mem (hgt.trans hgs)] at hstage
      rcases hstage with hsame | hadvance
      · rw [hsame]
        exact hs
      · have notHeld {stage : Stage} (h : r.stage = stage) (hc : stage ≠ .created)
            (hh : ∀ call, stage ≠ .compiling (.held call)) : False := by
          rcases hs with hs | ⟨call, hs⟩
          · exact hc (h.symm.trans hs)
          · exact hh call (h.symm.trans hs)
        generalize s.stage = stage at hadvance hopen
        cases hadvance with
        | waits _ given' asks =>
            rw [given] at given'
            cases given'
            rw [onRequest] at asks
            exact .inr ⟨_, congrArg Stage.compiling asks.symm⟩
        | answers => exact absurd rfl (untold _ _)
        | answerDue h => exact (notHeld h (by simp) (by simp)).elim
        | bundles ht => exact (takes ht).elim
        | builds h => exact (notHeld h (by simp) (by simp)).elim
        | buildDue h => exact (notHeld h (by simp) (by simp)).elim
        | ends => cases hopen
        | cancels => cases quiet
    · rw [hgs, hg] at hlt
      exact absurd hlt (Nat.lt_irrefl _)
  · cases concludes with
    | fails ht => exact (takes ht).elim
    | superseded _ old => exact absurd hg old
    | publishes yields =>
        cases yields with
        | modules ht => exact (takes ht).elim
        | atOnce ht => exact (takes ht).elim
        | bundled stage =>
            rcases hs with hs | ⟨_, hs⟩ <;> rw [stage] at hs <;> cases hs
    | quits why =>
        rcases why with h | ⟨_, h⟩
        · rcases hs with hs | ⟨_, hs⟩ <;> rw [h] at hs <;> cases hs
        · exact absurd (given.symm.trans h) (by simp)

/-- The last run that a queue starts is the latest. -/
theorem exists_created_foldl_dispatch (queue : List Trigger)
    (h : ∃ r ∈ c.runs, r.generation = c.generation ∧ r.stage = .created) :
    ∃ r ∈ (queue.foldl dispatch c).runs,
      r.generation = (queue.foldl dispatch c).generation ∧ r.stage = .created := by
  induction queue generalizing c with
  | nil => exact h
  | cons trigger rest ih =>
      refine ih ?_
      unfold dispatch
      split
      · exact h
      · exact ⟨_, List.mem_append_right _ (List.mem_singleton_self _), rfl, rfl⟩

/-- A queue that asks for something new starts a run. -/
theorem exists_created_of_new {queue : List Trigger}
    (compiler : c.environment.compiler ≠ none)
    (new : ∃ trigger ∈ queue, c.latest ≠ some (c.optionsFor trigger)) :
    c.generation < (queue.foldl dispatch c).generation ∧
      ∃ r ∈ (queue.foldl dispatch c).runs,
        r.generation = (queue.foldl dispatch c).generation ∧ r.stage = .created := by
  induction queue with
  | nil =>
      obtain ⟨_, h, _⟩ := new
      cases h
  | cons trigger rest ih =>
      by_cases hskip : c.latest = some (c.optionsFor trigger)
      · have hd : c.dispatch trigger = c := if_pos (.inr hskip)
        rw [List.foldl_cons, hd]
        obtain ⟨t, ht, hne⟩ := new
        refine ih ⟨t, (List.mem_cons.mp ht).resolve_left ?_, hne⟩
        rintro rfl
        exact hne hskip
      · have hd : c.dispatch trigger = c.mint (c.optionsFor trigger) := by
          refine if_neg ?_
          rintro (h | h)
          · exact compiler (Option.isNone_iff_eq_none.mp h)
          · exact hskip h
        rw [List.foldl_cons, hd]
        refine ⟨?_, exists_created_foldl_dispatch rest ⟨_, List.mem_append_right _
          (List.mem_singleton_self _), rfl, rfl⟩⟩
        exact Nat.lt_of_lt_of_le (Nat.lt_succ_self _)
          (le_generation_foldl_dispatch rest (c.mint (c.optionsFor trigger)))

/-- The control loop finds what is new. Until then the one who halts the pipeline
does not go on. -/
theorem Pressed.turn (q : c.Pressed) (waits : c.Waits) (quiet : move.isQuiet = true)
    (turn : c.Turn move d) :
    d.Pressed ∧ d.generation = c.generation ∨
      d.LeftOver ∧ c.generation < d.generation := by
  have input := Move.not_isInput_of_isQuiet quiet
  obtain ⟨pre, post, line, hpre⟩ := q.line
  -- The job that is done first is not the one of the loop.
  have pop {job : Job} {rest : List Job} (hline : c.jobs = job :: rest)
      (hne : job ≠ .loop) : job ∈ pre ∧
        ∃ pre' post', rest = pre' ++ .loop :: post' ∧ .notice .caller ∉ pre' := by
    rw [line] at hline
    cases pre with
    | nil =>
        cases hline
        exact absurd rfl hne
    | cons first pre =>
        cases hline
        exact ⟨List.mem_cons_self, pre, post, rfl, List.not_mem_of_not_mem_cons hpre⟩
  cases turn with
  | still => exact .inl ⟨q, rfl⟩
  | edits _ _ h | chooses _ _ h | loads _ h => exact absurd h input
  | views => exact .inl ⟨⟨q.halt, q.loop, q.held, q.new, q.line, q.runs⟩, rfl⟩
  | starts | halts => cases quiet
  | answers mem hw | answerDue mem hw =>
      exact absurd hw (not_compiling (q.runs _ mem) _)
  | builds mem hw | buildDue mem hw =>
      exact absurd hw (not_bundling (q.runs _ mem) _ _)
  | @consumes rest =>
      obtain ⟨compiler, given, _⟩ := waits
      let e : Core := { c with queue := [], jobs := rest }
      have he : e.environment.compiler ≠ none := by
        rw [show e.environment.compiler = some compiler from given]
        simp
      obtain ⟨hlt, r, mem, hg, hs⟩ := exists_created_of_new he q.new
      obtain ⟨_, _, _, hq⟩ := foldl_dispatch_frame c.queue e
      refine .inr ⟨⟨⟨r, mem, hg, .inl hs⟩, ⟨by simp, by simp⟩, ?_⟩, hlt⟩
      show (c.queue.foldl dispatch e).held = none
      rw [hq]
      exact q.held
  | loopEnds cancelled =>
      rcases q.loop with h | h <;> exact absurd (h.symm.trans cancelled) (by simp)
  | loopSleeps asleep =>
      rcases q.loop with h | h <;> rcases asleep with ha | ha | ha <;>
        exact absurd (h.symm.trans ha) (by simp)
  | @serves r _ mem served =>
      rw [served.of_cancelled (served.cancelled (q.runs _ mem))]
      let more : List Job :=
        .reap r.generation :: (c.watchersOf r.generation).map .notice
      have hline : c.jobs ++ more = pre ++ .loop :: (post ++ more) := by
        rw [line, List.append_assoc, List.cons_append]
      refine .inl ⟨⟨q.halt, q.loop, q.held, q.new, ⟨pre, _, hline, hpre⟩,
        fun s hmem => ?_⟩, rfl⟩
      · obtain ⟨t, ht, rfl⟩ := List.mem_map.mp hmem
        split
        · exact .inr rfl
        · exact q.runs t ht
  | reaps hline =>
      refine .inl ⟨⟨q.halt, q.loop, q.held, q.new, (pop hline (by simp)).2,
        fun r hr => ?_⟩, rfl⟩
      exact q.runs r (List.mem_filter.mp hr).1
  | notices hline => exact absurd (pop hline (by simp)).1 hpre
  | @resumes rest hline =>
      obtain ⟨n, hn⟩ := q.halt
      rw [resume_of_runs (c := { c with jobs := rest }) hn]
      exact .inl
        ⟨⟨q.halt, q.loop, q.held, q.new, (pop hline (by simp)).2, q.runs⟩, rfl⟩
  | fires due => exact absurd (q.held.symm.trans due) (by simp)

/-! ## How halting begins -/

theorem beginHalt_of_runs (sound : c.Sound) (h : c.runs ≠ []) :
    c.beginHalt = ({ c with
      held := none
      halt := some (.runs c.runs.length)
      runs := c.runs.map fun r : Run =>
        if r.stage.isLive then { r with stage := .cancelled } else r } : Core).watch := by
  have hs : ({ c with held := none } : Core).Sound :=
    sound.mono rfl rfl rfl fun _ hg => hg
  simp only [beginHalt]
  rw [hs.cancelRuns_eq]
  refine (if_neg ?_).trans ?_
  · simpa using h
  · simp only [List.length_map]

/-- When halting begins all runs have been cancelled or have ended, and the one
who halts the pipeline is going to hear of each. -/
theorem of_mem_beginHalt_runs (sound : c.Sound) (reaped : c.Reaped) (h : c.runs ≠ [])
    (hs : s ∈ c.beginHalt.runs) : s.stage = .cancelled ∧ .caller ∈ s.watchers ∨
      s.stage.isOver = true ∧
        [.reap s.generation, .notice .caller].Sublist c.beginHalt.jobs := by
  rw [beginHalt_of_runs sound h] at hs ⊢
  obtain ⟨t, ht, rfl⟩ := List.mem_map.mp hs
  obtain ⟨r, hr, hrt⟩ := List.mem_map.mp ht
  cases hover : t.stage.isOver with
  | false =>
      rw [if_neg (by simp)]
      refine .inl ⟨?_, List.mem_append_right _ (List.mem_singleton_self _)⟩
      show t.stage = .cancelled
      rw [← hrt] at hover ⊢
      split at hover
      · next hl => rw [if_pos hl]
      · next hl =>
          rw [if_neg hl]
          revert hl hover
          cases r.stage <;> simp [Stage.isLive, Stage.isOver]
  | true =>
      rw [if_pos rfl]
      have hrover : r = t := by
        rw [← hrt] at hover ⊢
        split at hover
        · cases hover
        · next hl => rw [if_neg hl]
      have hreap : Job.reap t.generation ∈ c.jobs :=
        hrover ▸ reaped r hr (hrover ▸ hover)
      refine .inr ⟨hover, List.Sublist.append (List.singleton_sublist.mpr hreap)
        (List.singleton_sublist.mpr ?_)⟩
      exact List.mem_map.mpr ⟨t, List.mem_filter.mpr ⟨ht, hover⟩, rfl⟩

theorem stopping_beginHalt (sound : c.Sound) (reaped : c.Reaped) (h : c.runs ≠ [])
    (skips : ∀ trigger ∈ c.queue, c.latest = some (c.optionsFor trigger)) :
    c.beginHalt.Stopping := by
  have hruns := fun s (hs : s ∈ c.beginHalt.runs) =>
    of_mem_beginHalt_runs sound reaped h hs
  refine ⟨?_, ?_, ?_, hruns⟩ <;> rw [beginHalt_of_runs sound h]
  · exact ⟨_, rfl⟩
  · rfl
  · exact skips

theorem pressed_beginHalt (sound : c.Sound) (orderly : c.Orderly)
    (free : c.halt = none) (started : c.loop ≠ .off) (h : c.runs ≠ [])
    (new : ∃ trigger ∈ c.queue, c.latest ≠ some (c.optionsFor trigger)) :
    c.beginHalt.Pressed := by
  have hqueue : c.queue ≠ [] := by
    obtain ⟨_, ht, _⟩ := new
    exact List.ne_nil_of_mem ht
  have awake : c.loop = .created ∨ c.loop = .woken := by
    have hhalted := orderly.lined.halted
    cases hl : c.loop with
    | off => exact absurd hl started
    | created => exact .inl rfl
    | woken => exact .inr rfl
    | waiting => exact absurd (orderly.lined.waiting hl) hqueue
    | cancelled => exact absurd (free.symm.trans (hhalted (.inl hl))) (by simp)
    | ended => exact absurd (free.symm.trans (hhalted (.inr hl))) (by simp)
  obtain ⟨pre, post, line⟩ := List.append_of_mem (orderly.lined.awake awake)
  have hpre : Job.notice .caller ∉ pre := fun hm =>
    orderly.notice_not_mem free (line ▸ List.mem_append_left _ hm)
  have hruns (s : Run) (hs : s ∈ c.beginHalt.runs) :
      s.stage = .cancelled ∨ s.stage.isOver = true :=
    (of_mem_beginHalt_runs sound orderly.reaped h hs).imp And.left And.left
  have hline : ∃ pre post, c.beginHalt.jobs = pre ++ .loop :: post ∧
      .notice .caller ∉ pre := by
    obtain ⟨_, _, _, more, _, hb⟩ := beginHalt_frame c
    refine ⟨pre, post ++ more, ?_, hpre⟩
    rw [hb]
    show c.jobs ++ more = _
    rw [line, List.append_assoc, List.cons_append]
  refine ⟨?_, ?_, ?_, ?_, hline, hruns⟩ <;> rw [beginHalt_of_runs sound h]
  · obtain ⟨n, hn⟩ := Nat.exists_eq_succ_of_ne_zero (mt List.length_eq_zero_iff.mp h)
    exact ⟨n, congrArg (fun n => some (Halt.runs n)) hn⟩
  · exact awake
  · rfl
  · exact new

end Core

/-! ## Courses -/

namespace Pipeline

variable {environment : Environment} {window : Int} {fragment : Text}
  {p : Pipeline}

theorem orderly_follow (h : new environment window fragment = .ok p)
    (moves : List Move) : (p.follow moves).core.Orderly := by
  induction moves with
  | nil =>
      obtain ⟨_, _, rfl⟩ := new_eq_ok h
      refine ⟨⟨?_, ?_, ?_⟩, ?_, Nat.le_refl _⟩
      · intro hl
        cases hl
      · rintro (hl | hl) <;> cases hl
      · rintro (hl | hl) <;> cases hl
      · intro r hr
        cases hr
  | cons move before ih =>
      have chronicle := chronicle_follow h before
      exact ih.turn chronicle.sound (core_turn _ move chronicle.script)

/-- A pipeline at rest neither calls the compiler nor replaces the output until
someone starts it. -/
theorem rest_follow (h : new environment window fragment = .ok p)
    {moves : List Move} (rest : (p.follow moves).core.AtRest) {later : List Move}
    (unstarted : .act .start ∉ later) :
    (p.follow (later ++ moves)).core.AtRest ∧
      (p.follow (later ++ moves)).calls = (p.follow moves).calls ∧
      (p.follow (later ++ moves)).output = (p.follow moves).output := by
  induction later with
  | nil => exact ⟨rest, rfl, rfl⟩
  | cons move later ih =>
      obtain ⟨hrest, hcalls, houtput⟩ := ih (List.not_mem_of_not_mem_cons unstarted)
      have chronicle := chronicle_follow h (later ++ moves)
      have turn := core_turn (p.follow (later ++ moves)) move chronicle.script
      obtain ⟨hrest', hcalls', houtput'⟩ :=
        hrest.turn turn (List.ne_of_not_mem_cons unstarted).symm
      exact ⟨hrest', Eq.trans hcalls' hcalls, Eq.trans houtput' houtput⟩

/-- A pipeline that is being halted, and whose queue does no harm, goes on being
halted or has come to rest. -/
theorem stopping_or_rest (h : new environment window fragment = .ok p)
    {moves : List Move} (free : (p.follow moves).halt = none)
    (harmless : (p.follow moves).runs = [] ∨ ∀ trigger ∈ (p.follow moves).queue,
      (p.follow moves).latest = some ((p.follow moves).optionsFor trigger))
    {quiet : List Move} (hquiet : ∀ move ∈ quiet, move.isQuiet = true) :
    (p.follow (quiet ++ .halt :: moves)).core.Stopping ∨
      (p.follow (quiet ++ .halt :: moves)).core.AtRest := by
  induction quiet with
  | nil =>
      have chronicle := chronicle_follow h moves
      show ((p.follow moves).after .halt).core.Stopping ∨
        ((p.follow moves).after .halt).core.AtRest
      rw [core_after_halt chronicle.script free]
      by_cases hruns : (p.follow moves).core.runs = []
      · rw [Core.beginHalt_of_nil hruns]
        exact .inr (Core.atRest_haltLoop hruns)
      · have skips := harmless.resolve_left (mt core_runs_eq_nil.mpr hruns)
        exact .inl (Core.stopping_beginHalt chronicle.sound
          (orderly_follow h moves).reaped hruns skips)
  | cons move quiet ih =>
      have hmove := hquiet move List.mem_cons_self
      have chronicle := chronicle_follow h (quiet ++ .halt :: moves)
      have turn := core_turn (p.follow (quiet ++ .halt :: moves)) move chronicle.script
      rcases ih fun m hm => hquiet m (List.mem_cons_of_mem _ hm) with stopping | rest
      · exact stopping.turn chronicle.sound (orderly_follow h _).owed hmove turn
      · refine .inr (rest.turn turn ?_).1
        rintro rfl
        cases hmove

/-- A pipeline that is being halted, and whose queue asks for something new, is
still being halted or has a run left over. -/
theorem pressed_or_leftOver (h : new environment window fragment = .ok p)
    {moves : List Move} (free : (p.follow moves).halt = none)
    (started : (p.follow moves).loop ≠ .off) (running : (p.follow moves).runs ≠ [])
    (new : ∃ trigger ∈ (p.follow moves).queue,
      (p.follow moves).latest ≠ some ((p.follow moves).optionsFor trigger))
    (waits : ∃ compiler, environment.compiler = some compiler ∧
      ∀ o, compiler o = .onRequest)
    {quiet : List Move} (hquiet : ∀ move ∈ quiet, move.isQuiet = true ∧
      ∀ call reply, move ≠ .act (.answerCompiler call reply)) :
    (p.follow (quiet ++ .halt :: moves)).core.Pressed ∧
        (p.follow (quiet ++ .halt :: moves)).generation = (p.follow moves).generation ∨
      (p.follow (quiet ++ .halt :: moves)).core.LeftOver ∧
        (p.follow moves).generation < (p.follow (quiet ++ .halt :: moves)).generation := by
  induction quiet with
  | nil =>
      have chronicle := chronicle_follow h moves
      have hb := core_after_halt chronicle.script free
      obtain ⟨_, _, _, _, _, hf⟩ := Core.beginHalt_frame (p.follow moves).core
      refine .inl
        ⟨?_, (congrArg Core.generation hb).trans (congrArg Core.generation hf)⟩
      show ((p.follow moves).after .halt).core.Pressed
      rw [hb]
      exact Core.pressed_beginHalt chronicle.sound (orderly_follow h moves) free
        started (mt core_runs_eq_nil.mp running) new
  | cons move quiet ih =>
      obtain ⟨hmove, huntold⟩ := hquiet move List.mem_cons_self
      have chronicle := chronicle_follow h (quiet ++ .halt :: moves)
      have turn := core_turn (p.follow (quiet ++ .halt :: moves)) move chronicle.script
      have hwaits : (p.follow (quiet ++ .halt :: moves)).core.Waits := by
        unfold Core.Waits
        rw [chronicle.given]
        exact waits
      rcases ih fun m hm => hquiet m (List.mem_cons_of_mem _ hm) with
        ⟨pressed, hg⟩ | ⟨leftOver, hg⟩
      · rcases pressed.turn hwaits hmove turn with ⟨hp, hsame⟩ | ⟨hl, hlt⟩
        · exact .inl ⟨hp, Eq.trans hsame hg⟩
        · exact .inr ⟨hl, Nat.lt_of_le_of_lt (Nat.le_of_eq hg.symm) hlt⟩
      · have hsame := turn.generation_eq leftOver.loop
        exact .inr ⟨leftOver.turn chronicle.sound hwaits hmove huntold turn,
          Nat.lt_of_lt_of_le hg (Nat.le_of_eq hsame.symm)⟩

/-- A started pipeline is halted, and nobody asks for anything new until it has
been. If no run was in flight when halting began, or if all that was queued was
to be skipped, then no run is left, and until the next start nobody calls the
compiler or replaces the output. If not, and the compiler does not answer, a run
is left over, for something that was queued. -/
theorem rests_after_halt (h : new environment window fragment = .ok p)
    (moves : List Move) (free : (p.follow moves).halt = none)
    (started : (p.follow moves).loop ≠ .off) :
    let before := p.follow moves
    let after (quiet : List Move) := p.follow (quiet ++ .halt :: moves)
    let skips (trigger : Trigger) := before.latest = some (before.optionsFor trigger)
    ((before.runs = [] ∨ ∀ trigger ∈ before.queue, skips trigger) →
      ∀ quiet, (∀ move ∈ quiet, move.isQuiet = true) → (after quiet).halt = none →
        (after quiet).runs = [] ∧
        ∀ later, .act .start ∉ later →
          (after (later ++ quiet)).calls = (after quiet).calls ∧
          (after (later ++ quiet)).output = (after quiet).output) ∧
    (¬ (before.runs = [] ∨ ∀ trigger ∈ before.queue, skips trigger) →
      (∃ compiler, environment.compiler = some compiler ∧ ∀ o, compiler o = .onRequest) →
      ∀ quiet, (∀ move ∈ quiet, move.isQuiet = true ∧
          ∀ call reply, move ≠ .act (.answerCompiler call reply)) →
        (after quiet).halt = none →
          ∃ run ∈ (after quiet).runs, run.stage.isOver = false ∧
            before.generation < run.generation) := by
  intro before after skips
  refine ⟨fun harmless quiet hquiet hend => ?_, fun harm waits quiet hquiet hend => ?_⟩
  · have rest : (after quiet).core.AtRest := by
      rcases stopping_or_rest h free harmless hquiet with stopping | rest
      · obtain ⟨n, hn⟩ := stopping.halt
        exact absurd (hend.symm.trans hn) (by simp)
      · exact rest
    refine ⟨core_runs_eq_nil.mp rest.runs, fun later hlater => ?_⟩
    have hlast := rest_follow h rest hlater
    rw [← List.append_assoc] at hlast
    exact hlast.2
  · rw [not_or] at harm
    have new : ∃ trigger ∈ before.queue, ¬ skips trigger := by
      simpa only [not_forall, exists_prop] using harm.2
    rcases pressed_or_leftOver h free started harm.1 new waits hquiet with
      ⟨pressed, _⟩ | ⟨leftOver, hlt⟩
    · obtain ⟨n, hn⟩ := pressed.halt
      exact absurd (hend.symm.trans hn) (by simp)
    · obtain ⟨r, mem, hg, hs⟩ := leftOver.run
      obtain ⟨run, hrun, hgr, _, hsr⟩ := exists_of_mem_core_runs mem
      refine ⟨run, hrun, ?_, ?_⟩
      · rw [hsr]
        rcases hs with hs | ⟨_, hs⟩ <;> rw [hs] <;> rfl
      · rw [hgr, hg]
        exact hlt

end Pipeline

/-- A compiler that answers only when it is told to. -/
def Environment.gated : Environment where
  rootDir := text "/internal/project"
  newSession := { source := text "a" }
  compiler := some fun _ => .onRequest

/-- The first run waits for the compiler, an option is changed, and right after
that halting begins. The moves are listed latest first. -/
def Move.optionThenHalt : List Move :=
  [.halt, .act (.setOptions (some (.str (text "minify"))) none none), .job, .job,
    .act .start]

namespace Pipeline

/-- The run that the change of the option asks for is left over. -/
theorem left_over_after_halt : ∃ p, new .gated 0 [] = .ok p ∧
    ∃ run ∈ (p.follow (List.replicate 8 .job ++ Move.optionThenHalt)).runs,
      run.stage.isOver = false ∧ 1 < run.generation := by
  refine ⟨_, rfl, ?_⟩
  refine (@rests_after_halt .gated 0 [] _ rfl Move.optionThenHalt.tail rfl
    (by decide)).2 ?_ ⟨_, rfl, fun _ => rfl⟩ (List.replicate 8 .job) ?_ rfl
  · rintro (h | h)
    · exact absurd (congrArg List.length h) (by decide)
    · have hskip := h _ List.mem_cons_self
      exact absurd (congrArg (Option.map CompileOptions.minify) hskip) (by decide)
  · intro move hm
    rw [List.eq_of_mem_replicate hm]
    exact ⟨rfl, by simp⟩

/-- When the pipeline has been halted, its compiler answers, and the answer is
displayed. -/
theorem displays_after_halt : ∃ p, new .gated 0 [] = .ok p ∧
    let halted := p.follow (List.replicate 8 .job ++ Move.optionThenHalt)
    let later := halted.follow [.job, .act (.answerCompiler 1 (.answered (.obj [])))]
    halted.halt = none ∧ halted.loop = .off ∧ halted.runs.length = 1 ∧
      halted.output.generation = 0 ∧ later.output.generation = 2 := by
  refine ⟨_, rfl, rfl, ?_, ?_, ?_, ?_⟩ <;> decide

end Pipeline

end Playground
