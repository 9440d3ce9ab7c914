import Playground.Proofs.Pipeline.Sound

/-!
# What a move does to one run

The turns say what becomes of the core as a whole. Seen from a run they are
fewer: a run stays as it is or advances, and an advance is one of eight. A run
that was not there before has just been created, for options that nobody
changes later.

An advance never goes back. In particular a run whose call was answered never
waits for that answer again, which is why it is answered once.
-/

namespace Playground

/-- Whether a run does not wait for the compiler, because it has got its answer
or has given up. -/
def Stage.isAnswered : Stage → Bool
  | .created | .compiling (.held _) | .compiling (.at ..) => false
  | _ => true

namespace Core

variable {c d : Core} {r s : Run} {move : Move}

/-- What becomes of a run that does not stay as it is. When it begins to wait
for another, no other run changes. -/
inductive Advance (c d : Core) (r : Run) : Move → Stage → Prop where
  | waits {compiler : CompileOptions → Answer CompilerReply} {now : Nat}
      {await : Await CompilerReply} (created : r.stage = .created)
      (given : c.environment.compiler = some compiler)
      (asks : (compiler r.options).await now c.calls.length = await)
      (isOpen : ∀ reply, await ≠ .ready reply)
      (calls : d.calls = c.calls ++ [r.options])
      (others : ∀ s ∈ d.runs, s.generation ≠ r.generation → s ∈ c.runs) :
      Advance c d r .job (.compiling await)
  | answers {call : Nat} {reply : CompilerReply}
      (waits : r.stage = .compiling (.held call)) :
      Advance c d r (.act (.answerCompiler call reply)) (.compiling (.ready reply))
  | answerDue {time : Nat} {reply : CompilerReply}
      (waits : r.stage = .compiling (.at time reply)) :
      Advance c d r .answerDue (.compiling (.ready reply))
  | bundles {reply : CompilerReply} {result : CompileResult} {now : Nat}
      {await : Await EngineRun} (takes : c.Takes r reply)
      (ok : reply.result = .ok result) (transpile : r.options.transpile = true)
      (asks : (c.environment.engine result.modules).await now c.builds = await)
      (isOpen : ∀ engineRun, await ≠ .ready engineRun)
      (builds : d.builds = c.builds + 1)
      (others : ∀ s ∈ d.runs, s.generation ≠ r.generation → s ∈ c.runs) :
      Advance c d r .job (.bundling result await)
  | builds {call : Nat} {engineRun : EngineRun} {result : CompileResult}
      (waits : r.stage = .bundling result (.held call)) :
      Advance c d r (.act (.answerEngine call engineRun))
        (.bundling result (.ready engineRun))
  | buildDue {time : Nat} {engineRun : EngineRun} {result : CompileResult}
      (waits : r.stage = .bundling result (.at time engineRun)) :
      Advance c d r .answerDue (.bundling result (.ready engineRun))
  | ends (isOpen : r.stage.isOver = false) (crash : Option Failure) :
      Advance c d r .job (.finished crash)
  | cancels (live : r.stage.isLive = true) : Advance c d r .halt .cancelled

/-- The run `s` is what becomes of a run of the core. -/
def Continues (c d : Core) (move : Move) (s : Run) : Prop :=
  ∃ r ∈ c.runs, r.generation = s.generation ∧ r.options = s.options ∧
    (s.stage = r.stage ∨ c.Advance d r move s.stage)

theorem continues_of_mem (h : s ∈ c.runs) : c.Continues d move s :=
  ⟨s, h, rfl, rfl, .inl rfl⟩

/-! ## Operations, seen from a run -/

theorem continues_of_mem_setStage {stage : Stage} (h : c.Sound) (mem : r ∈ c.runs)
    (advance : c.Advance d r move stage)
    (hs : s ∈ (c.setStage r.generation stage).runs) : c.Continues d move s := by
  obtain ⟨t, ht, rfl⟩ := List.mem_map.mp hs
  split
  · next he =>
      obtain rfl := h.eq_of_generation ht mem he
      exact ⟨t, ht, rfl, rfl, .inr advance⟩
  · exact continues_of_mem ht

/-- What the queue asks for is new, and nothing is done about it yet. -/
theorem mem_foldl_dispatch_runs {queue : List Trigger}
    (h : s ∈ (queue.foldl dispatch c).runs) :
    s ∈ c.runs ∨ c.generation < s.generation ∧ s.stage = .created := by
  induction queue generalizing c with
  | nil => exact .inl h
  | cons trigger rest ih =>
      rcases ih h with hs | ⟨hlt, hs⟩
      · simp only [dispatch] at hs
        split at hs
        · exact .inl hs
        · rcases List.mem_append.mp hs with hs | hs
          · exact .inl hs
          · rw [List.mem_singleton.mp hs]
            exact .inr ⟨Nat.lt_succ_self _, rfl⟩
      · refine .inr ⟨?_, hs⟩
        simp only [dispatch] at hlt
        split at hlt
        · exact hlt
        · exact Nat.lt_of_succ_lt hlt

theorem continues_of_mem_beginHalt (h : c.Sound) (hs : s ∈ c.beginHalt.runs) :
    c.Continues d .halt s := by
  obtain ⟨_, _, watchers, _, _, hb⟩ := beginHalt_frame c
  rw [hb, h.cancelRuns_eq, List.map_map] at hs
  obtain ⟨t, ht, rfl⟩ := List.mem_map.mp hs
  refine ⟨t, ht, ?_⟩
  cases hlive : t.stage.isLive with
  | true => simp [hlive, Advance.cancels hlive]
  | false => simp [hlive]

theorem mem_of_mem_setStage_runs {generation : Nat} {stage : Stage}
    (hs : s ∈ (c.setStage generation stage).runs) (hne : s.generation ≠ generation) :
    s ∈ c.runs := by
  obtain ⟨t, ht, rfl⟩ := List.mem_map.mp hs
  split at hne
  · next he => exact absurd he hne
  · next hn => rw [if_neg hn]; exact ht

/-- A run that is served ends, or it waits from now on for another. -/
theorem Served.continues (h : c.Sound) (mem : r ∈ c.runs) (served : c.Served r d)
    (hs : s ∈ d.runs) : c.Continues d .job s := by
  have hover := served.isOver
  have hruns : (c.called r).runs = c.runs := by
    obtain ⟨_, hc⟩ := called_frame c r
    rw [hc]
  have hset (e : Core) (he : e.runs = c.runs) (stage : Stage) :
      (e.setStage r.generation stage).runs = (c.setStage r.generation stage).runs := by
    simp only [setStage, he]
  cases served with
  | @waits compiler now await created given asks isOpen =>
      have hs' := hset (c.called r) hruns (.compiling await)
      refine continues_of_mem_setStage h mem (.waits created given asks isOpen ?_
        fun t ht hne => ?_) (hs' ▸ hs)
      · simp only [called, created, setStage]
      · exact mem_of_mem_setStage_runs (hs' ▸ ht) hne
  | @bundles reply result now await takes ok current transpile asks isOpen =>
      have hs' := hset { c.called r with builds := c.builds + 1 } hruns
        (.bundling result await)
      exact continues_of_mem_setStage h mem (.bundles takes ok transpile asks isOpen rfl
        fun t ht hne => mem_of_mem_setStage_runs (hs' ▸ ht) hne) (hs' ▸ hs)
  | fails | superseded | publishes =>
      exact continues_of_mem_setStage h mem (.ends hover _) (hset _ hruns _ ▸ hs)
  | quits => exact continues_of_mem_setStage h mem (.ends hover _) hs

/-! ## Turns, seen from a run -/

/-- Each run after a move was there before, or it has just been created. -/
theorem Turn.continues (h : c.Sound) (turn : c.Turn move d) (hs : s ∈ d.runs) :
    c.Continues d move s ∨ c.generation < s.generation ∧ s.stage = .created := by
  cases turn with
  | still | edits | views | loopEnds | loopSleeps => exact .inl (continues_of_mem hs)
  | chooses | loads | fires | starts =>
      obtain ⟨_, _, _, ht⟩ := trigger_frame _
      rw [ht] at hs
      exact .inl (continues_of_mem hs)
  | answers mem waits =>
      exact .inl (continues_of_mem_setStage h mem (.answers waits) hs)
  | answerDue mem waits =>
      exact .inl (continues_of_mem_setStage h mem (.answerDue waits) hs)
  | builds mem waits =>
      exact .inl (continues_of_mem_setStage h mem (.builds waits) hs)
  | buildDue mem waits =>
      exact .inl (continues_of_mem_setStage h mem (.buildDue waits) hs)
  | halts => exact .inl (continues_of_mem_beginHalt h hs)
  | consumes =>
      rcases mem_foldl_dispatch_runs hs with hs | hs
      · exact .inl (continues_of_mem hs)
      · exact .inr hs
  | serves mem served => exact .inl (served.continues h mem hs)
  | reaps => exact .inl (continues_of_mem (List.mem_filter.mp hs).1)
  | notices =>
      obtain ⟨_, _, _, hn⟩ := notice_frame _
      rw [hn] at hs
      exact .inl (continues_of_mem hs)
  | resumes =>
      obtain ⟨_, _, _, _, hr⟩ := resume_frame _
      rw [hr] at hs
      exact .inl (continues_of_mem hs)

/-- A run that has got its answer is not going to wait for it again. -/
theorem Advance.isAnswered {stage : Stage} (h : c.Advance d r move stage)
    (answered : r.stage.isAnswered = true) : stage.isAnswered = true := by
  cases h with
  | waits created => rw [created] at answered; cases answered
  | _ => rfl

theorem le_generation_foldl_dispatch (queue : List Trigger) (c : Core) :
    c.generation ≤ (queue.foldl dispatch c).generation := by
  induction queue generalizing c with
  | nil => exact Nat.le_refl _
  | cons trigger rest ih =>
      refine Nat.le_trans ?_ (ih (c.dispatch trigger))
      unfold dispatch
      split
      · exact Nat.le_refl _
      · exact Nat.le_succ _

theorem calls_called (c : Core) (r : Run) : c.calls <+: (c.called r).calls := by
  unfold called
  split
  · exact List.prefix_append _ _
  · exact List.prefix_refl _

/-- Neither the generations nor the calls go back. -/
theorem Turn.grows (turn : c.Turn move d) :
    c.generation ≤ d.generation ∧ c.calls <+: d.calls ∧ c.builds ≤ d.builds := by
  have same : c.generation ≤ c.generation ∧ c.calls <+: c.calls ∧
      c.builds ≤ c.builds :=
    ⟨Nat.le_refl _, List.prefix_refl _, Nat.le_refl _⟩
  cases turn with
  | still | edits | views | answers | builds | loopEnds | loopSleeps | reaps
  | answerDue | buildDue => exact same
  | chooses | loads | fires | starts =>
      obtain ⟨_, _, _, ht⟩ := trigger_frame _
      rw [ht]
      exact same
  | halts =>
      obtain ⟨_, _, _, _, _, hb⟩ := beginHalt_frame c
      rw [hb]
      exact same
  | @consumes rest =>
      refine
        ⟨le_generation_foldl_dispatch c.queue { c with queue := [], jobs := rest }, ?_⟩
      obtain ⟨_, _, _, hq⟩ := foldl_dispatch_frame c.queue
        { c with queue := [], jobs := rest }
      rw [hq]
      exact same.2
  | serves mem served =>
      have hcalled (r : Run) : c.generation ≤ (c.called r).generation ∧
          c.calls <+: (c.called r).calls ∧ c.builds ≤ (c.called r).builds := by
        obtain ⟨_, hc⟩ := called_frame c r
        exact ⟨Nat.le_of_eq (congrArg Core.generation hc).symm, calls_called c r,
          Nat.le_of_eq (congrArg Core.builds hc).symm⟩
      cases served with
      | quits => exact same
      | bundles => exact ⟨(hcalled _).1, (hcalled _).2.1, Nat.le_succ _⟩
      | publishes _ _ more => exact ⟨(hcalled _).1, (hcalled _).2.1, more⟩
      | waits | fails | superseded => exact hcalled _
  | notices =>
      obtain ⟨_, _, _, hn⟩ := notice_frame _
      rw [hn]
      exact same
  | resumes =>
      obtain ⟨_, _, _, _, hr⟩ := resume_frame _
      rw [hr]
      exact same

/-! ## How a run ends -/

/-- How a run that is served comes to its end. -/
inductive Concludes (c : Core) (r : Run) (d : Core) : Prop where
  | fails {reply : CompilerReply} {failure : CompileFailure}
      (takes : c.Takes r reply) (failed : reply.result = .error failure)
  | superseded (live : r.stage.isLive = true) (old : r.generation ≠ c.generation)
  | publishes {result : CompileResult} {bundles : List BundleChunk}
      (yields : c.Yields r result bundles) (current : r.generation = c.generation)
      (output : d.output = {
        generation := r.generation
        modules := result.modules
        bundles
        diagnostics := result.diagnostics })
  | quits (why : r.stage = .cancelled ∨
      r.stage = .created ∧ c.environment.compiler = none)

/-- A run that waits for another has not ended. -/
theorem exists_mem_setStage (mem : r ∈ c.runs) {stage : Stage}
    (isOpen : stage.isOver = false) : ∃ s ∈ (c.setStage r.generation stage).runs,
      s.generation = r.generation ∧ s.stage.isOver = false := by
  refine ⟨_, List.mem_map_of_mem mem, ?_⟩
  rw [if_pos rfl]
  exact ⟨rfl, isOpen⟩

theorem Served.survives (served : c.Served r d) (mem : r ∈ c.runs) :
    (∃ s ∈ d.runs, s.generation = r.generation ∧ s.stage.isOver = false) ∨
      c.Concludes r d := by
  obtain ⟨_, hc⟩ := called_frame c r
  cases served with
  | waits | bundles =>
      rw [hc]
      exact .inl (exists_mem_setStage mem rfl)
  | fails takes failed => exact .inr (.fails takes failed)
  | superseded live old => exact .inr (.superseded live old)
  | publishes yields current => exact .inr (.publishes yields current rfl)
  | quits why => exact .inr (.quits why)

theorem mem_foldl_dispatch_of_mem (h : r ∈ c.runs) (queue : List Trigger) :
    r ∈ (queue.foldl dispatch c).runs := by
  induction queue generalizing c with
  | nil => exact h
  | cons trigger rest ih =>
      refine ih ?_
      unfold dispatch
      split
      · exact h
      · exact List.mem_append_left _ h

/-- A run that has not ended goes on, or it is served and comes to its end. -/
theorem Turn.survives (turn : c.Turn move d) (h : c.Sound) (mem : r ∈ c.runs)
    (isOpen : r.stage.isOver = false) :
    (∃ s ∈ d.runs, s.generation = r.generation ∧ s.stage.isOver = false) ∨
      c.Concludes r d := by
  have stays (e : Core) (he : e.runs = c.runs) (generation : Nat) (stage : Stage)
      (ho : stage.isOver = false ∨ r.generation ≠ generation) :
      ∃ s ∈ (e.setStage generation stage).runs,
        s.generation = r.generation ∧ s.stage.isOver = false := by
    refine ⟨_, List.mem_map_of_mem (he ▸ mem), ?_⟩
    split
    · next hg => exact ⟨rfl, ho.resolve_right (not_not_intro hg)⟩
    · exact ⟨rfl, isOpen⟩
  cases turn with
  | still | edits | views | loopEnds | loopSleeps => exact .inl ⟨r, mem, rfl, isOpen⟩
  | chooses | loads | starts | fires =>
      obtain ⟨_, _, _, ht⟩ := trigger_frame _
      rw [ht]
      exact .inl ⟨r, mem, rfl, isOpen⟩
  | answers | builds | answerDue | buildDue => exact .inl (stays c rfl _ _ (.inl rfl))
  | halts =>
      obtain ⟨_, _, watchers, _, _, hb⟩ := beginHalt_frame c
      rw [hb, h.cancelRuns_eq, List.map_map]
      refine .inl ⟨_, List.mem_map_of_mem mem, ?_⟩
      simp only [Function.comp]
      split
      · exact ⟨rfl, rfl⟩
      · exact ⟨rfl, isOpen⟩
  | @consumes rest =>
      have hr := mem_foldl_dispatch_of_mem (c := { c with queue := [], jobs := rest })
        mem c.queue
      exact .inl ⟨r, hr, rfl, isOpen⟩
  | @serves r' _ mem' served =>
      by_cases hg : r.generation = r'.generation
      · rw [h.eq_of_generation mem mem' hg]
        exact served.survives mem'
      · have hruns : (c.called r').runs = c.runs := by
          obtain ⟨_, hc⟩ := called_frame c r'
          rw [hc]
        cases served with
        | quits => exact .inl (stays c rfl _ _ (.inr hg))
        | _ => exact .inl (stays _ hruns _ _ (.inr hg))
  | @reaps generation _ line =>
      have hg : r.generation ≠ generation := by
        rintro rfl
        rw [h.reaps_over r mem (line ▸ List.mem_cons_self)] at isOpen
        cases isOpen
      exact .inl ⟨r, List.mem_filter.mpr ⟨mem, by simpa using hg⟩, rfl, isOpen⟩
  | notices =>
      obtain ⟨_, _, _, hn⟩ := notice_frame _
      rw [hn]
      exact .inl ⟨r, mem, rfl, isOpen⟩
  | resumes =>
      obtain ⟨_, _, _, _, hr⟩ := resume_frame _
      rw [hr]
      exact .inl ⟨r, mem, rfl, isOpen⟩

end Core

end Playground
