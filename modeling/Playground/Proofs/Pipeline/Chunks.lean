import Playground.Proofs.Pipeline.Publication

/-!
# Which chunks are displayed

The modules and the diagnostics of an output are those of the run that published
it. The chunks need not be, because a run whose engine fails keeps the chunks that
are displayed. It reads them when the engine has answered, in the job in which it
publishes, so what it keeps is what was displayed immediately before, and not what
was displayed when it called the engine.

A run that does not transpile displays no chunks at all. And a run that has nothing
to publish, because the compiler failed or because a newer run was started, leaves
everything as it was.
-/

namespace Playground

namespace Core

variable {c d : Core} {r : Run} {result : CompileResult} {bundles : List BundleChunk}

/-- A run takes one reply. -/
theorem Takes.unique {a b : CompilerReply} (ha : c.Takes r a) (hb : c.Takes r b) : a = b := by
  rcases ha with ha | ⟨ha, compiler, given, answer⟩
  · rcases hb with hb | ⟨hb, -⟩
    · rw [ha] at hb
      cases hb
      rfl
    · rw [ha] at hb
      cases hb
  · rcases hb with hb | ⟨-, compiler', given', answer'⟩
    · rw [ha] at hb
      cases hb
    · rw [given] at given'
      cases given'
      exact Answer.atOnce.inj (answer.symm.trans answer')

/-- A run whose compiler fails has nothing to publish. -/
theorem Yields.not_takes_error {reply : CompilerReply} {failure : CompileFailure}
    (yields : c.Yields r result bundles) (failed : reply.result = .error failure) :
    ¬c.Takes r reply := by
  intro takes
  have differs {a : CompilerReply} (takes' : c.Takes r a) (ok : a.result = .ok result) : False := by
    rw [takes'.unique takes, failed] at ok
    cases ok
  cases yields with
  | modules takes' ok => exact differs takes' ok
  | atOnce takes' ok => exact differs takes' ok
  | bundled stage =>
      rcases takes with waits | ⟨created, -⟩
      · rw [stage] at waits
        cases waits
      · rw [stage] at created
        cases created

/-- A run that is served replaces the output only by what it has found out itself, and only
while it is the latest. -/
theorem Served.yields (served : c.Served r d) (hne : d.output ≠ c.output) :
    r.generation = c.generation ∧ ∃ result bundles, c.Yields r result bundles := by
  obtain ⟨_, hc⟩ := called_frame c r
  cases served with
  | publishes yields current => exact ⟨current, _, _, yields⟩
  | waits | fails | superseded | bundles =>
      rw [hc] at hne
      exact absurd rfl hne
  | quits => exact absurd rfl hne

end Core

namespace Chronicle

variable {environment : Environment} {past : Past} {p : Pipeline} {r : Run}

/-- The chunks that a run publishes are none, or what the engine made of its modules, and when
the engine made nothing of them they are what is displayed. -/
theorem chunks_of_yields (h : Chronicle environment past p.core) (move : Move)
    (mem : r ∈ p.core.runs) {result : CompileResult} {bundles : List BundleChunk}
    (yields : p.core.Yields r result bundles) :
    (r.options.transpile = false → bundles = []) ∧
      (r.options.transpile = true → ∃ engineRun,
        Past.Built ((p, move) :: past) environment r.generation result engineRun ∧
          bundles = (engineRun.outcome Settings.entryId).1.getD p.output.bundles) := by
  cases yields with
  | modules takes ok plain =>
      refine ⟨fun _ => rfl, fun transpile => ?_⟩
      rw [plain] at transpile
      cases transpile
  | @atOnce reply engineRun takes ok transpile answer =>
      refine ⟨fun plain => ?_, fun _ => ⟨engineRun, .atOnce (h.given ▸ answer), rfl⟩⟩
      rw [plain] at transpile
      cases transpile
  | @bundled engineRun stage =>
      have founded := h.founded r mem
      rw [stage] at founded
      obtain ⟨transpile, -, built⟩ := founded
      refine ⟨fun plain => ?_, fun _ => ⟨engineRun, built.cons _, rfl⟩⟩
      rw [plain] at transpile
      cases transpile

end Chronicle

namespace Pipeline

variable {environment : Environment} {window : Int} {fragment : Text} {p q : Pipeline}

/-- To serve a run that is not the latest, or whose compiler fails, leaves the output as it is. -/
theorem output_serveRun {past : Past} (chronicle : Chronicle environment past p.core) {run : Run}
    (mem : run ∈ p.runs)
    (idle : run.generation ≠ p.generation ∨ ∃ reply failure, p.core.Takes run reply ∧
      reply.result = .error failure) :
    (p.serveRun run.generation).output = p.output := by
  by_contra hne
  rcases core_serveRun p run.generation with ⟨same, -⟩ | ⟨r, hr, hg, served⟩
  · exact hne (congrArg Core.output same :)
  · obtain ⟨current, result, bundles, yields⟩ := served.yields hne
    have here : r = run.forCaller := chronicle.sound.eq_of_generation hr (mem_core_runs mem) hg
    rcases idle with old | ⟨reply, failure, takes, failed⟩
    · exact old (hg.symm.trans current)
    · rw [here] at yields
      exact yields.not_takes_error failed takes

/-- A new output is that of the latest run. Its modules and diagnostics are what the compiler
answered to the options of this run. Its chunks are none if the run does not transpile, else what
the engine made of the modules of this run, unless the engine failed, and then they are those
that were displayed immediately before. A run whose compiler fails, or that is served when it is
not the latest any more, leaves the output as it was. -/
theorem displays_own_chunks (h : new environment window fragment = .ok p)
    (moves : List Move) (move : Move) :
    let before := p.follow moves
    let after := p.follow (move :: moves)
    let past := p.past (move :: moves)
    let g := after.output.generation
    (after.output ≠ before.output → g = before.generation ∧ ∃ options reply result,
      (∀ o, past.Asked g o ↔ o = options) ∧
      (∀ a, past.Answered environment g options a ↔ a = reply) ∧
      reply.result = .ok result ∧
      after.output.modules = result.modules ∧
      after.output.diagnostics = result.diagnostics ∧
      (options.transpile = false → after.output.bundles = []) ∧
      (options.transpile = true → ∃ engineRun,
        (∀ b, past.Built environment g result b ↔ b = engineRun) ∧
        match (engineRun.outcome Settings.entryId).1 with
        | some chunks => after.output.bundles = chunks
        | none => after.output.bundles = before.output.bundles)) ∧
    ∀ run ∈ before.runs, ∀ rest, move = .job → before.jobs = .run run.generation :: rest →
      (run.generation ≠ before.generation ∨ ∃ reply failure, before.core.Takes run reply ∧
        reply.result = .error failure) →
      after.output = before.output := by
  intro before after past g
  have hbefore := chronicle_follow h moves
  have hafter := chronicle_follow h (move :: moves)
  refine ⟨fun hne => ?_, fun run mem rest hmove line idle => ?_⟩
  · have turn : before.core.Turn move after.core := core_turn before move hbefore.script
    obtain ⟨r, mem, result, bundles, yields, current, -, output⟩ := turn.publishes hne
    obtain ⟨reply, shows⟩ := hbefore.shows_of_yields move mem yields
    obtain ⟨plain, transpiled⟩ := hbefore.chunks_of_yields move mem yields
    change after.output = _ at output
    have hg : g = r.generation := congrArg Output.generation output
    rw [← output] at shows
    have own : after.output.bundles = bundles := congrArg Output.bundles output
    refine ⟨hg.trans current, r.options, reply, result, fun o => ⟨fun asked => ?_, ?_⟩,
      fun a => ⟨fun answered => ?_, ?_⟩, shows.ok, shows.modules, shows.diagnostics,
      fun none => own.trans (plain none), fun some => ?_⟩
    · exact hafter.asked.unique asked shows.asked
    · rintro rfl
      exact shows.asked
    · exact hafter.answered_unique answered shows.answered
    · rintro rfl
      exact shows.answered
    · obtain ⟨engineRun, built, chunks⟩ := transpiled some
      rw [← hg] at built
      refine ⟨engineRun, fun b => ⟨fun other => hafter.built_unique other built, ?_⟩, ?_⟩
      · rintro rfl
        exact built
      · rw [own, chunks]
        cases (engineRun.outcome Settings.entryId).1 <;> rfl
  · subst hmove
    have same : ({ before with jobs := rest } : Pipeline).core = before.core :=
      core_line_of_not line rfl
    have served : after = ({ before with jobs := rest } : Pipeline).serveRun run.generation :=
      after_job line
    rw [served]
    exact output_serveRun (p := { before with jobs := rest }) (same.symm ▸ hbefore) mem idle

end Pipeline

/-- A compiler that answers at once, and an engine that answers only when it is told to. -/
def Environment.assembling : Environment :=
  { Environment.prompt with engine := fun _ => .onRequest }

/-- The engine makes one chunk for the first run and fails in the second, which an option was
changed for. The moves are listed latest first, and the second run is about to publish. -/
def Move.bundleThenFail : List Move :=
  [.act (.answerEngine 1 ⟨[], .failed (.broke (text "no entry"))⟩), .job, .job,
    .act (.setOptions (some (.str (text "minify"))) none none), .job, .job,
    .act (.answerEngine 0 ⟨[], .linked [⟨text "input.js", [], true, false⟩]⟩), .job, .job,
    .act .start, .act (.setOptions none none (some true))]

namespace Pipeline

/-- The second run keeps the chunk of the first. -/
theorem keeps_chunks_of_first_run : ∃ p, new .assembling 0 [] = .ok p ∧
    (p.follow Move.bundleThenFail).output.bundles = [⟨text "input.js", [], true⟩] ∧
    (p.follow (.job :: Move.bundleThenFail)).output.generation = 2 ∧
    (p.follow (.job :: Move.bundleThenFail)).output.bundles =
      (p.follow Move.bundleThenFail).output.bundles := by
  refine ⟨_, rfl, by decide, by decide, ?_⟩
  have hne {a b : Output} (h : a.generation ≠ b.generation) : a ≠ b :=
    fun he => h (congrArg Output.generation he)
  obtain ⟨-, options, reply, result, asked, answered, ok, -, -, -, chunks⟩ :=
    (@displays_own_chunks .assembling 0 [] _ rfl Move.bundleThenFail .job).1 (hne (by decide))
  obtain rfl := (asked _).mp ⟨_, List.mem_cons_self, _, List.mem_cons_self, rfl, rfl⟩
  obtain rfl := (answered (.answered (.obj []))).mp (.atOnce rfl rfl)
  cases ok
  obtain ⟨engineRun, built, kept⟩ := chunks rfl
  obtain rfl := (built ⟨[], .failed (.broke (text "no entry"))⟩).mp (.told rfl
    ⟨_, List.mem_cons_of_mem _ List.mem_cons_self, _, List.mem_cons_self, rfl, 1, rfl, rfl⟩)
  exact kept

end Pipeline

end Playground
