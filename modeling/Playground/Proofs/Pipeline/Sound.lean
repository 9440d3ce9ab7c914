import Mathlib.Data.List.Nodup
import Playground.Proofs.Pipeline.Turn

/-!
# What always holds of the runs

Generations are handed out in order, one to a run, so that runs are told apart
by them. A run is taken off the list only after it has ended, and what is
displayed comes from a run that has ended. That is enough to see why
publications come in order: the run that publishes is the latest and has not
ended, so that what it replaces comes from another, and older, run.

A core that is sound in this sense stays sound whatever happens. The
operations come first, then the turns, then whole courses.
-/

namespace Playground

namespace Core

variable {c d : Core} {r s : Run}

/-- The runs are numbered as they should be. -/
structure Sound (c : Core) : Prop where
  le : ∀ r ∈ c.runs, r.generation ≤ c.generation
  distinct : (c.runs.map Run.generation).Nodup
  output_le : c.output.generation ≤ c.generation
  unpublished : ∀ r ∈ c.runs, r.stage.isOver = false →
    r.generation ≠ c.output.generation
  reaps_le : ∀ generation, .reap generation ∈ c.jobs → generation ≤ c.generation
  reaps_over : ∀ r ∈ c.runs, .reap r.generation ∈ c.jobs → r.stage.isOver = true

theorem Sound.eq_of_generation (h : c.Sound) (hr : r ∈ c.runs) (hs : s ∈ c.runs)
    (he : r.generation = s.generation) : r = s :=
  List.inj_on_of_nodup_map h.distinct hr hs he

/-! ## Operations -/

/-- Nothing else matters, as long as no job is added that takes a run off the
list. -/
theorem Sound.mono (h : c.Sound) (generation : d.generation = c.generation)
    (output : d.output = c.output) (runs : d.runs = c.runs)
    (reaps : ∀ g, .reap g ∈ d.jobs → .reap g ∈ c.jobs) : d.Sound where
  le := by rw [generation, runs]; exact h.le
  distinct := by rw [runs]; exact h.distinct
  output_le := by rw [generation, output]; exact h.output_le
  unpublished := by rw [output, runs]; exact h.unpublished
  reaps_le g hg := by rw [generation]; exact h.reaps_le g (reaps g hg)
  reaps_over r hr hg := h.reaps_over r (runs ▸ hr) (reaps _ hg)

/-- More jobs of other kinds do not matter. -/
theorem not_reap_of_mem_append {jobs more : List Job}
    (h : ∀ job ∈ more, ∀ g, job ≠ .reap g) (g : Nat)
    (hg : .reap g ∈ jobs ++ more) : .reap g ∈ jobs := by
  rcases List.mem_append.mp hg with hg | hg
  · exact hg
  · exact absurd rfl (h _ hg g)

/-- Runs may change as long as those that have ended stay so. -/
theorem Sound.map {f : Run → Run} (h : c.Sound)
    (same : ∀ r, (f r).generation = r.generation)
    (ended : ∀ r ∈ c.runs, r.stage.isOver = true → (f r).stage.isOver = true) :
    { c with runs := c.runs.map f }.Sound where
  le r hr := by
    obtain ⟨s, hs, rfl⟩ := List.mem_map.mp hr
    rw [same]
    exact h.le s hs
  distinct := by
    have hf : Run.generation ∘ f = Run.generation := funext same
    rw [List.map_map, hf]
    exact h.distinct
  output_le := h.output_le
  unpublished r hr := by
    obtain ⟨s, hs, rfl⟩ := List.mem_map.mp hr
    intro hlive
    rw [same]
    refine h.unpublished s hs ?_
    cases ho : s.stage.isOver with
    | false => rfl
    | true => rw [ended s hs ho] at hlive; cases hlive
  reaps_le := h.reaps_le
  reaps_over r hr hg := by
    obtain ⟨s, hs, rfl⟩ := List.mem_map.mp hr
    rw [same] at hg
    exact ended s hs (h.reaps_over s hs hg)

theorem Sound.setStage (h : c.Sound) (mem : r ∈ c.runs)
    (open_ : r.stage.isOver = false) (stage : Stage) :
    (c.setStage r.generation stage).Sound := by
  refine h.map (fun s => ?_) (fun s hs hover => ?_)
  · split <;> rfl
  · split
    · next he =>
        rw [h.eq_of_generation hs mem he, open_] at hover
        cases hover
    · exact hover

theorem Sound.finish (h : c.Sound) (mem : r ∈ c.runs)
    (open_ : r.stage.isOver = false) (crash : Option Failure) :
    (c.finish r.generation crash).Sound := by
  have hset := h.setStage mem open_ (.finished crash)
  have hreap : ∀ g, .reap g ∈ c.jobs ++ .reap r.generation ::
      (c.watchersOf r.generation).map .notice →
      .reap g ∈ c.jobs ∨ g = r.generation := by
    intro g hg
    rcases List.mem_append.mp hg with hg | hg
    · exact .inl hg
    · rcases List.mem_cons.mp hg with hg | hg
      · exact .inr (Job.reap.inj hg)
      · obtain ⟨_, _, hn⟩ := List.mem_map.mp hg
        cases hn
  refine ⟨hset.le, hset.distinct, hset.output_le, hset.unpublished, fun g hg => ?_,
    fun s hs hg => ?_⟩
  · rcases hreap g hg with hg | hg
    · exact h.reaps_le g hg
    · exact hg ▸ h.le r mem
  · rcases hreap _ hg with hg | hg
    · exact hset.reaps_over s hs hg
    · obtain ⟨t, _, rfl⟩ := List.mem_map.mp hs
      split
      · rfl
      · next hne =>
          rw [if_neg hne] at hg
          exact absurd hg hne

theorem generation_of_mem_finish {generation : Nat} {crash : Option Failure}
    (h : s ∈ (c.finish generation crash).runs) (live : s.stage.isOver = false) :
    s.generation ≠ generation := by
  obtain ⟨t, _, rfl⟩ := List.mem_map.mp h
  intro he
  split at live
  · cases live
  · next hne =>
      rw [if_neg hne] at he
      exact hne he

theorem Sound.fail (h : c.Sound) (mem : r ∈ c.runs)
    (open_ : r.stage.isOver = false) : (c.fail r.generation).Sound := by
  have hl (latest : Option CompileOptions) : { c with latest }.Sound :=
    h.mono rfl rfl rfl fun _ hg => hg
  exact (hl (if r.generation = c.generation then none else c.latest)).finish mem
    open_ none

theorem Sound.publish (h : c.Sound) (mem : r ∈ c.runs)
    (open_ : r.stage.isOver = false) (result : CompileResult)
    (bundles : List BundleChunk) (crash : Option Failure) :
    (c.publish r.generation result bundles crash).Sound := by
  have hf := h.finish mem open_ crash
  exact ⟨hf.le, hf.distinct, h.le r mem,
    fun s hs live => generation_of_mem_finish hs live,
    hf.reaps_le, hf.reaps_over⟩

theorem Sound.mint (h : c.Sound) (options : CompileOptions) :
    (c.mint options).Sound where
  le r hr := by
    rcases List.mem_append.mp hr with hr | hr
    · exact Nat.le_succ_of_le (h.le r hr)
    · rw [List.mem_singleton.mp hr]
      exact Nat.le_refl _
  distinct := by
    simp only [Core.mint, List.map_append, List.map_cons, List.map_nil]
    refine List.nodup_append.mpr ⟨h.distinct, List.nodup_singleton _, ?_⟩
    intro g hg g' hg'
    obtain ⟨r, hr, rfl⟩ := List.mem_map.mp hg
    rw [List.mem_singleton.mp hg']
    exact Nat.ne_of_lt (Nat.lt_succ_of_le (h.le r hr))
  output_le := Nat.le_succ_of_le h.output_le
  unpublished r hr hlive := by
    rcases List.mem_append.mp hr with hr | hr
    · exact h.unpublished r hr hlive
    · rw [List.mem_singleton.mp hr]
      exact Nat.ne_of_gt (Nat.lt_succ_of_le h.output_le)
  reaps_le g hg := Nat.le_succ_of_le (h.reaps_le g hg)
  reaps_over r hr hg := by
    rcases List.mem_append.mp hr with hr | hr
    · exact h.reaps_over r hr hg
    · rw [List.mem_singleton.mp hr] at hg
      exact absurd (h.reaps_le _ hg) (Nat.not_succ_le_self _)

theorem Sound.dispatch (h : c.Sound) (trigger : Trigger) :
    (c.dispatch trigger).Sound := by
  unfold Core.dispatch
  split
  · exact h
  · exact h.mint _

theorem Sound.foldl_dispatch (h : c.Sound) (queue : List Trigger) :
    (queue.foldl Core.dispatch c).Sound := by
  induction queue generalizing c with
  | nil => exact h
  | cons trigger rest ih => exact ih (h.dispatch trigger)

theorem Sound.strike (h : c.Sound) (generation : Nat) :
    (c.strike generation).Sound where
  le r hr := h.le r (List.mem_filter.mp hr).1
  distinct := h.distinct.sublist (List.filter_sublist.map Run.generation)
  output_le := h.output_le
  unpublished r hr := h.unpublished r (List.mem_filter.mp hr).1
  reaps_le := h.reaps_le
  reaps_over r hr := h.reaps_over r (List.mem_filter.mp hr).1

/-- To cancel all runs that go on is to cancel each that does. -/
theorem Sound.cancelRuns_eq (h : c.Sound) : c.cancelRuns c.runs =
    { c with runs := c.runs.map fun r =>
      if r.stage.isLive then { r with stage := .cancelled } else r } := by
  simp only [Core.cancelRuns, Core.mk.injEq, true_and, and_true]
  refine List.map_congr_left fun r hr => ?_
  have hany : (c.runs.any fun s => s.generation = r.generation && s.stage.isLive) =
      r.stage.isLive := by
    rw [Bool.eq_iff_iff, List.any_eq_true]
    constructor
    · rintro ⟨s, hs, hlive⟩
      rw [Bool.and_eq_true, decide_eq_true_eq] at hlive
      rw [← h.eq_of_generation hs hr hlive.1]
      exact hlive.2
    · intro hlive
      exact ⟨r, hr, by rw [hlive]; simp⟩
  rw [hany]

theorem Sound.beginHalt (h : c.Sound) : c.beginHalt.Sound := by
  obtain ⟨_, _, watchers, more, hmore, hb⟩ := beginHalt_frame c
  have hcancel : (c.cancelRuns c.runs).Sound := by
    rw [h.cancelRuns_eq]
    refine h.map (fun r => by split <;> rfl) (fun r _ hover => ?_)
    split
    · next hlive =>
        revert hover hlive
        cases r.stage <;> simp [Stage.isOver, Stage.isLive]
    · exact hover
  have hwatch := hcancel.map (f := fun r => { r with watchers := watchers r })
    (fun _ => rfl) (fun _ _ hover => hover)
  rw [hb]
  refine hwatch.mono rfl rfl rfl (not_reap_of_mem_append fun job hjob g => ?_)
  rcases hmore job hjob with rfl | rfl <;> exact Job.noConfusion

/-! ## Turns -/

theorem Takes.isOver {reply : CompilerReply} (h : c.Takes r reply) :
    r.stage.isOver = false := by
  rcases h with h | ⟨h, _⟩ <;> rw [h] <;> rfl

theorem Yields.isOver {result : CompileResult} {bundles : List BundleChunk}
    (h : c.Yields r result bundles) : r.stage.isOver = false := by
  cases h with
  | modules takes => exact takes.isOver
  | atOnce takes => exact takes.isOver
  | bundled stage => rw [stage]; rfl

theorem isOver_of_isLive {stage : Stage} (h : stage.isLive = true) :
    stage.isOver = false := by
  revert h
  cases stage <;> simp [Stage.isLive, Stage.isOver]

/-- A run that is served and goes on has not ended before. -/
theorem Served.isOver (h : c.Served r d) : r.stage.isOver = false := by
  cases h with
  | waits created => rw [created]; rfl
  | fails takes => exact takes.isOver
  | superseded live => exact isOver_of_isLive live
  | bundles takes => exact takes.isOver
  | publishes yields => exact yields.isOver
  | quits why => rcases why with h | ⟨h, _⟩ <;> rw [h] <;> rfl

theorem Sound.called (h : c.Sound) : (c.called r).Sound := by
  obtain ⟨_, hc⟩ := called_frame c r
  rw [hc]
  exact h.mono rfl rfl rfl fun _ hg => hg

theorem mem_called_runs : s ∈ (c.called r).runs ↔ s ∈ c.runs := by
  obtain ⟨_, hc⟩ := called_frame c r
  rw [hc]

theorem Sound.served (h : c.Sound) (mem : r ∈ c.runs) (served : c.Served r d) :
    d.Sound := by
  have hmem := mem_called_runs (r := r).mpr mem
  have hover := served.isOver
  have hbuilds (builds : Nat) : { c.called r with builds }.Sound :=
    h.called.mono rfl rfl rfl fun _ hg => hg
  cases served with
  | waits => exact h.called.setStage hmem hover _
  | fails =>
      exact h.called.fail hmem hover
  | superseded => exact h.called.finish hmem hover none
  | bundles => exact (hbuilds (c.builds + 1)).setStage hmem hover _
  | @publishes _ _ _ builds => exact (hbuilds builds).publish hmem hover _ _ _
  | quits => exact h.finish mem hover none

theorem Sound.trigger (h : c.Sound) : c.trigger.Sound := by
  obtain ⟨_, more, hmore, ht⟩ := trigger_frame c
  rw [ht]
  refine h.mono rfl rfl rfl (not_reap_of_mem_append fun job hjob g => ?_)
  rw [hmore job hjob]
  exact Job.noConfusion

theorem Sound.turn {move : Move} (h : c.Sound) (turn : c.Turn move d) : d.Sound := by
  have pop {job : Job} {rest : List Job} (line : c.jobs = job :: rest) :
      { c with jobs := rest }.Sound :=
    h.mono rfl rfl rfl fun g hg => line ▸ List.mem_cons_of_mem _ hg
  cases turn with
  | still => exact h
  | edits | views => exact h.mono rfl rfl rfl fun _ hg => hg
  | chooses | loads | fires =>
      exact Sound.trigger (h.mono rfl rfl rfl fun _ hg => hg)
  | starts =>
      refine Sound.trigger (h.mono rfl rfl rfl (not_reap_of_mem_append ?_))
      intro job hjob g
      rw [List.mem_singleton.mp hjob]
      exact Job.noConfusion
  | answers mem waits | answerDue mem waits =>
      exact h.setStage mem (by rw [waits]; rfl) _
  | builds mem waits | buildDue mem waits =>
      exact h.setStage mem (by rw [waits]; rfl) _
  | halts => exact h.beginHalt
  | consumes awake line =>
      have hq : ({ c with queue := [], jobs := _ } : Core).Sound :=
        (pop line).mono rfl rfl rfl fun _ hg => hg
      exact (hq.foldl_dispatch c.queue).mono rfl rfl rfl fun _ hg => hg
  | loopEnds cancelled line =>
      refine (pop line).mono rfl rfl rfl (not_reap_of_mem_append ?_)
      intro job hjob g
      rw [List.mem_singleton.mp hjob]
      exact Job.noConfusion
  | loopSleeps asleep line => exact pop line
  | serves mem served => exact h.served mem served
  | reaps line => exact (pop line).strike _
  | notices line =>
      obtain ⟨_, more, hmore, hn⟩ := notice_frame { c with jobs := _ }
      rw [hn]
      refine (pop line).mono rfl rfl rfl (not_reap_of_mem_append fun job hjob g => ?_)
      rw [hmore job hjob]
      exact Job.noConfusion
  | resumes line =>
      obtain ⟨_, _, more, hmore, hr⟩ := resume_frame { c with jobs := _ }
      rw [hr]
      refine (pop line).mono rfl rfl rfl (not_reap_of_mem_append fun job hjob g => ?_)
      rw [hmore job hjob]
      exact Job.noConfusion

end Core

end Playground
