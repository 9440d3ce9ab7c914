import Playground.Proofs.Pipeline.Provenance

/-!
# What is displayed

The output is replaced by the latest run only, and each time by one that is
newer. It shows what that run found out: the modules and the diagnostics that
the compiler answered to the options of the run, and nothing of any other.

Why this is so takes three steps. Of all the turns only one replaces the
output, and the run that it serves is the latest. That run has not ended, so
the output is not its own, and since no generation is larger than the latest
the output's is smaller. What the run has found out is founded on the past.
-/

namespace Playground

/-- An output shows what the run of its generation has found out. -/
structure Past.Shows (past : Past) (environment : Environment)
    (options : CompileOptions) (reply : CompilerReply) (result : CompileResult)
    (output : Output) : Prop where
  asked : past.Asked output.generation options
  answered : past.Answered environment output.generation options reply
  ok : reply.result = .ok result
  modules : output.modules = result.modules
  diagnostics : output.diagnostics = result.diagnostics
  plain : options.transpile = false → output.bundles = []
  bundled : options.transpile = true → ∃ engineRun,
    past.Built environment output.generation result engineRun ∧
      ∀ chunks, (engineRun.outcome Settings.entryId).1 = some chunks →
        output.bundles = chunks

theorem Past.Shows.cons {past : Past} {environment : Environment}
    {options : CompileOptions} {reply : CompilerReply} {result : CompileResult}
    {output : Output} (h : past.Shows environment options reply result output)
    (step : Pipeline × Move) :
    Past.Shows (step :: past) environment options reply result output where
  asked := h.asked.cons step
  answered := h.answered.cons step
  ok := h.ok
  modules := h.modules
  diagnostics := h.diagnostics
  plain := h.plain
  bundled ht := by
    obtain ⟨engineRun, hb, hc⟩ := h.bundled ht
    exact ⟨engineRun, hb.cons step, hc⟩

namespace Core

variable {c d : Core} {r : Run} {move : Move}

/-- The only turn that replaces the output serves the latest run. -/
theorem Turn.publishes (turn : c.Turn move d) (hne : d.output ≠ c.output) :
    ∃ r ∈ c.runs, ∃ result bundles, c.Yields r result bundles ∧
      r.generation = c.generation ∧ d.generation = c.generation ∧
      d.output = {
        generation := r.generation
        modules := result.modules
        bundles
        diagnostics := result.diagnostics } := by
  cases turn with
  | still | edits | views | answers | builds | loopEnds | loopSleeps | reaps
  | answerDue | buildDue => exact absurd rfl hne
  | chooses | loads | fires | starts =>
      obtain ⟨_, _, _, ht⟩ := trigger_frame _
      rw [ht] at hne
      exact absurd rfl hne
  | halts =>
      obtain ⟨_, _, _, _, _, hb⟩ := beginHalt_frame c
      rw [hb] at hne
      exact absurd rfl hne
  | consumes =>
      obtain ⟨_, _, _, hq⟩ := foldl_dispatch_frame c.queue _
      rw [hq] at hne
      exact absurd rfl hne
  | serves mem served =>
      have hcalled (r : Run) : (c.called r).output = c.output ∧
          (c.called r).generation = c.generation := by
        obtain ⟨_, hc⟩ := called_frame c r
        rw [hc]
        exact ⟨rfl, rfl⟩
      cases served with
      | publishes yields current =>
          exact ⟨_, mem, _, _, yields, current, (hcalled _).2, rfl⟩
      | quits => exact absurd rfl hne
      | _ => exact absurd (hcalled _).1 hne
  | notices =>
      obtain ⟨_, _, _, hn⟩ := notice_frame _
      rw [hn] at hne
      exact absurd rfl hne
  | resumes =>
      obtain ⟨_, _, _, _, hr⟩ := resume_frame _
      rw [hr] at hne
      exact absurd rfl hne

end Core

namespace Chronicle

variable {environment : Environment} {past : Past} {p : Pipeline} {d : Core}
  {move : Move} {r : Run}

/-- What a run publishes is founded on the past. -/
theorem shows_of_yields (h : Chronicle environment past p.core) (move : Move)
    (mem : r ∈ p.core.runs) {result : CompileResult} {bundles : List BundleChunk}
    (yields : p.core.Yields r result bundles) :
    ∃ reply, Past.Shows ((p, move) :: past) environment r.options reply result {
      generation := r.generation
      modules := result.modules
      bundles
      diagnostics := result.diagnostics } := by
  have asked : Past.Asked ((p, move) :: past) r.generation r.options :=
    Past.saw_cons.mpr (.inl ⟨r, mem, rfl, rfl⟩)
  -- Chunks that were made take the place of those that are displayed.
  have replaces (engineRun : EngineRun) (chunks : List BundleChunk)
      (made : (engineRun.outcome Settings.entryId).1 = some chunks) :
      (engineRun.outcome Settings.entryId).1.getD p.core.output.bundles = chunks := by
    rw [made]
    rfl
  cases yields with
  | @modules reply takes ok plain =>
      refine ⟨reply, asked, (h.answered_of_takes mem takes).cons _, ok, rfl, rfl,
        fun _ => rfl, fun ht => ?_⟩
      rw [plain] at ht
      cases ht
  | @atOnce reply engineRun takes ok transpile answer =>
      refine ⟨reply, asked, (h.answered_of_takes mem takes).cons _, ok, rfl, rfl,
        fun ht => ?_, fun _ => ⟨engineRun, .atOnce (h.given ▸ answer), replaces engineRun⟩⟩
      rw [transpile] at ht
      cases ht
  | @bundled engineRun stage =>
      have hf := (h.founded r mem).cons (p, move)
      rw [stage] at hf
      obtain ⟨transpile, ⟨reply, answered, ok⟩, built⟩ := hf
      refine ⟨reply, asked, answered, ok, rfl, rfl, fun ht => ?_,
        fun _ => ⟨engineRun, built, replaces engineRun⟩⟩
      rw [transpile] at ht
      cases ht

/-- A new output is newer than the one before, it is of the latest generation,
and it shows what the run of that generation has found out. -/
theorem publishes (h : Chronicle environment past p.core)
    (turn : p.core.Turn move d) (hne : d.output ≠ p.core.output) :
    p.core.output.generation < d.output.generation ∧
      d.generation = d.output.generation ∧
      ∃ options reply result, Past.Shows ((p, move) :: past) environment options reply
        result d.output := by
  obtain ⟨r, mem, result, bundles, yields, current, hgen, hout⟩ := turn.publishes hne
  have hunpublished := h.sound.unpublished r mem yields.isOver
  obtain ⟨reply, shows⟩ := h.shows_of_yields move mem yields
  rw [hout]
  refine ⟨?_, hgen.trans current.symm, r.options, reply, result, shows⟩
  show p.core.output.generation < r.generation
  rw [current] at hunpublished ⊢
  exact Nat.lt_of_le_of_ne h.sound.output_le hunpublished.symm

end Chronicle

namespace Pipeline

variable {environment : Environment} {window : Int} {fragment : Text}
  {p : Pipeline}

/-- Whatever the order of the moves, no output is newer than the latest
generation, and a run whose generation is displayed has ended. A move that
replaces the output makes it newer. The new output is of the latest generation
of all, and it shows the one result that the compiler answered to the one set of
options that the run of this generation asked for. -/
theorem publishes_latest (h : new environment window fragment = .ok p)
    (moves : List Move) (move : Move) :
    let before := p.follow moves
    let after := p.follow (move :: moves)
    let past := p.past (move :: moves)
    before.output.generation ≤ before.generation ∧
      (∀ run ∈ before.runs, run.generation = before.output.generation →
        run.stage.isOver = true) ∧
      (after.output ≠ before.output →
        before.output.generation < after.output.generation ∧
        after.generation = after.output.generation ∧
        (∀ step ∈ past, step.1.generation ≤ after.output.generation ∧
          ∀ run ∈ step.1.runs, run.generation ≤ after.output.generation) ∧
        ∃ options reply result,
          (∀ o, past.Asked after.output.generation o ↔ o = options) ∧
          (∀ a, past.Answered environment after.output.generation options a ↔
            a = reply) ∧
          reply.result = .ok result ∧
          after.output.modules = result.modules ∧
          after.output.diagnostics = result.diagnostics) := by
  intro before after past
  have hbefore := chronicle_follow h moves
  have hafter := chronicle_follow h (move :: moves)
  refine ⟨hbefore.sound.output_le, fun run hrun hg => ?_, fun hne => ?_⟩
  · cases hover : run.stage.isOver with
    | true => rfl
    | false =>
        have mem : run.forCaller ∈ before.core.runs := mem_core_runs hrun
        exact absurd hg (hbefore.sound.unpublished run.forCaller mem hover)
  · have turn : before.core.Turn move after.core := core_turn before move hbefore.script
    obtain ⟨hlt, hgen, options, reply, result, shows⟩ := hbefore.publishes turn hne
    refine ⟨hlt, hgen, fun step hstep => ⟨?_, fun run hrun => ?_⟩,
      options, reply, result, fun o => ⟨fun ha => ?_, ?_⟩, fun a => ⟨fun ha => ?_, ?_⟩,
      shows.ok, shows.modules, shows.diagnostics⟩
    · exact Nat.le_trans (hafter.generation_le step hstep) (Nat.le_of_eq hgen)
    · have hle := hafter.asked.le (a := run.options) ⟨step, hstep, run, hrun, rfl, rfl⟩
      exact Nat.le_trans hle (Nat.le_of_eq hgen)
    · exact hafter.asked.unique ha shows.asked
    · rintro rfl
      exact shows.asked
    · exact hafter.answered_unique ha shows.answered
    · rintro rfl
      exact shows.answered

end Pipeline

/-- A compiler that answers at once, and has no modules to display. -/
def Environment.prompt : Environment where
  rootDir := []
  newSession := { source := [] }
  compiler := some fun _ => .atOnce (.answered (.obj []))

namespace Pipeline

theorem publishes_latest_after_start : ∃ p, new .prompt 0 [] = .ok p ∧
    (p.follow [.job, .job, .act .start]).output ≠
      (p.follow [.job, .act .start]).output ∧
    (p.follow [.job, .act .start]).output.generation <
      (p.follow [.job, .job, .act .start]).output.generation := by
  have hne {a b : Output} (h : a.generation ≠ b.generation) : a ≠ b :=
    fun he => h (congrArg Output.generation he)
  refine ⟨_, rfl, hne (by decide), ?_⟩
  exact ((@publishes_latest .prompt 0 [] _ rfl [.job, .act .start] .job).2.2
    (hne (by decide))).1

end Pipeline

end Playground
