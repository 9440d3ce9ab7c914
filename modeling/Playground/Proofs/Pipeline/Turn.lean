import Playground.Proofs.Pipeline.Core

/-!
# Everything that a move can do

A pipeline has some forty operations, but a move does one of only a few things
to the core. They are listed here, each with what must have been the case
before, and `core_turn` says that there are no others. Whatever is to be shown
of every course is shown of these turns, one case for each.

What a run does when it is served is listed first. It takes the reply that it
waited for, or calls the compiler and may have the reply at once. Then it
fails, finds itself superseded, goes on to the engine, or publishes.

The list says nothing about scripts. In a course nobody leaves actions to
follow a halt, because whoever acts after it makes a move of its own.
-/

namespace Playground

/-- Whether a move changes the document, the options or the whole session. -/
def Move.isInput : Move → Bool
  | .act action =>
    match action with
    | .edit _ | .setOptions .. | .load _ | .reload | .type .. => true
    | _ => false
  | _ => false

/-- Only an answer that is given at once is there at once. -/
theorem Answer.atOnce_of_await {α : Type} {answer : Answer α} {now call : Nat} {given : α}
    (h : answer.await now call = .ready given) : answer = .atOnce given := by
  cases answer with
  | atOnce =>
      cases h
      rfl
  | after | onRequest => cases h

namespace Core

/-- The reply that a run takes when it is served. -/
def Takes (c : Core) (r : Run) (reply : CompilerReply) : Prop :=
  r.stage = .compiling (.ready reply) ∨
    r.stage = .created ∧ ∃ compiler, c.environment.compiler = some compiler ∧
      compiler r.options = .atOnce reply

/-- The calls after a run was served. Only a run that has just been created
makes one. -/
def called (c : Core) (r : Run) : Core :=
  match r.stage with
  | .created => { c with calls := c.calls ++ [r.options] }
  | _ => c

/-- What a run has found out when it publishes. Bundles that could not be made
are left as they are displayed. -/
inductive Yields (c : Core) (r : Run) (result : CompileResult) :
    List BundleChunk → Prop where
  | modules {reply : CompilerReply} (takes : c.Takes r reply)
      (ok : reply.result = .ok result) (plain : r.options.transpile = false) :
      Yields c r result []
  | atOnce {reply : CompilerReply} {engineRun : EngineRun}
      (takes : c.Takes r reply) (ok : reply.result = .ok result)
      (transpile : r.options.transpile = true)
      (answer : c.environment.engine result.modules = .atOnce engineRun) :
      Yields c r result
        ((engineRun.outcome Settings.entryId).1.getD c.output.bundles)
  | bundled {engineRun : EngineRun}
      (stage : r.stage = .bundling result (.ready engineRun)) :
      Yields c r result
        ((engineRun.outcome Settings.entryId).1.getD c.output.bundles)

/-- What becomes of the core when a run is served and goes on. -/
inductive Served (c : Core) (r : Run) : Core → Prop where
  | waits {compiler : CompileOptions → Answer CompilerReply} {now : Nat}
      {await : Await CompilerReply} (created : r.stage = .created)
      (given : c.environment.compiler = some compiler)
      (asks : (compiler r.options).await now c.calls.length = await)
      (isOpen : ∀ reply, await ≠ .ready reply) :
      Served c r ((c.called r).setStage r.generation (.compiling await))
  | fails {reply : CompilerReply} {failure : CompileFailure}
      (takes : c.Takes r reply) (failed : reply.result = .error failure) :
      Served c r ((c.called r).fail r.generation)
  | superseded (live : r.stage.isLive = true)
      (old : r.generation ≠ c.generation) :
      Served c r ((c.called r).finish r.generation none)
  | bundles {reply : CompilerReply} {result : CompileResult} {now : Nat}
      {await : Await EngineRun} (takes : c.Takes r reply)
      (ok : reply.result = .ok result) (current : r.generation = c.generation)
      (transpile : r.options.transpile = true)
      (asks : (c.environment.engine result.modules).await now c.builds = await)
      (isOpen : ∀ engineRun, await ≠ .ready engineRun) :
      Served c r ({ c.called r with builds := c.builds + 1 }.setStage
        r.generation (.bundling result await))
  | publishes {result : CompileResult} {bundles : List BundleChunk}
      {crash : Option Failure} {builds : Nat} (yields : c.Yields r result bundles)
      (current : r.generation = c.generation) (more : c.builds ≤ builds) :
      Served c r
        ({ c.called r with builds }.publish r.generation result bundles crash)
  | quits (why : r.stage = .cancelled ∨
        r.stage = .created ∧ c.environment.compiler = none) :
      Served c r (c.finish r.generation none)

/-- The core has no use for a move. Of an answer this is said only when no run
waits for it, and of a start only when the control loop is there. -/
def Ignores (c : Core) : Move → Prop
  | .act .start => c.loop ≠ .off
  | .act (.answerCompiler call _) => ∀ r ∈ c.runs, r.stage ≠ .compiling (.held call)
  | .act (.answerEngine call _) =>
    ∀ r ∈ c.runs, ∀ result, r.stage ≠ .bundling result (.held call)
  | _ => True

/-- What a move does to the core. -/
inductive Turn (c : Core) : Move → Core → Prop where
  | still {move : Move} (ignored : c.Ignores move) : Turn c move c
  | edits {move : Move} (source : Text) (time : Nat)
      (input : move.isInput = true) :
      Turn c move
        { c with session := { c.session with source }, held := some (time, source) }
  | chooses {move : Move} (session : Session)
      (same : session.source = c.session.source) (input : move.isInput = true) :
      Turn c move { c with session }.trigger
  | views (given : Json) (view : View) :
      Turn c (.act (.setView given)) { c with session := { c.session with view } }
  | loads {move : Move} (session : Session) (input : move.isInput = true) :
      Turn c move
        { c with session, settled := session.source, held := none }.trigger
  | starts (off : c.loop = .off) :
      Turn c (.act .start)
        { c with loop := .created, jobs := c.jobs ++ [Job.loop] }.trigger
  | answers {call : Nat} {reply : CompilerReply} {r : Run} (mem : r ∈ c.runs)
      (waits : r.stage = .compiling (.held call)) :
      Turn c (.act (.answerCompiler call reply))
        (c.setStage r.generation (.compiling (.ready reply)))
  | builds {call : Nat} {engineRun : EngineRun} {result : CompileResult} {r : Run}
      (mem : r ∈ c.runs) (waits : r.stage = .bundling result (.held call)) :
      Turn c (.act (.answerEngine call engineRun))
        (c.setStage r.generation (.bundling result (.ready engineRun)))
  | halts (free : c.halt = none) : Turn c .halt c.beginHalt
  | consumes {rest : List Job} (awake : c.loop = .created ∨ c.loop = .woken)
      (line : c.jobs = .loop :: rest) :
      Turn c .job
        { c.queue.foldl dispatch { c with queue := [], jobs := rest } with
          loop := Loop.waiting }
  | loopEnds {rest : List Job} (cancelled : c.loop = .cancelled)
      (line : c.jobs = .loop :: rest) :
      Turn c .job { c with loop := .ended, jobs := rest ++ [.caller] }
  | loopSleeps {rest : List Job}
      (asleep : c.loop = .off ∨ c.loop = .waiting ∨ c.loop = .ended)
      (line : c.jobs = .loop :: rest) : Turn c .job { c with jobs := rest }
  | serves {r : Run} {d : Core} (mem : r ∈ c.runs) (served : c.Served r d) :
      Turn c .job d
  | reaps {generation : Nat} {rest : List Job}
      (line : c.jobs = .reap generation :: rest) :
      Turn c .job ({ c with jobs := rest }.strike generation)
  | notices {rest : List Job} (line : c.jobs = .notice .caller :: rest) :
      Turn c .job { c with jobs := rest }.notice
  | resumes {rest : List Job} (line : c.jobs = .caller :: rest) :
      Turn c .job { c with jobs := rest }.resume
  | fires {time : Nat} {source : Text} (due : c.held = some (time, source)) :
      Turn c .editDue { c with settled := source, held := none }.trigger
  | answerDue {time : Nat} {reply : CompilerReply} {r : Run} (mem : r ∈ c.runs)
      (waits : r.stage = .compiling (.at time reply)) :
      Turn c .answerDue (c.setStage r.generation (.compiling (.ready reply)))
  | buildDue {time : Nat} {engineRun : EngineRun} {result : CompileResult} {r : Run}
      (mem : r ∈ c.runs) (waits : r.stage = .bundling result (.at time engineRun)) :
      Turn c .answerDue
        (c.setStage r.generation (.bundling result (.ready engineRun)))

theorem called_frame (c : Core) (r : Run) :
    ∃ calls, c.called r = { c with calls } := by
  unfold called
  split
  · exact ⟨_, rfl⟩
  · exact ⟨_, rfl⟩

/-- A run that publishes without a new call to the engine. -/
theorem Served.publish {c : Core} {r : Run} {result : CompileResult}
    {bundles : List BundleChunk} {crash : Option Failure}
    (yields : c.Yields r result bundles) (current : r.generation = c.generation) :
    c.Served r ((c.called r).publish r.generation result bundles crash) := by
  obtain ⟨_, hc⟩ := called_frame c r
  exact .publishes yields current (Nat.le_of_eq (congrArg Core.builds hc).symm)

/-- Nobody changes what the pipeline works with, or leaves actions to follow. -/
theorem Turn.same {c d : Core} {move : Move} (h : c.Turn move d) :
    d.environment = c.environment ∧ d.script = c.script := by
  cases h with
  | still | edits | views | answers | builds | loopEnds | loopSleeps | reaps
  | answerDue | buildDue => exact ⟨rfl, rfl⟩
  | chooses | loads | starts | fires =>
      obtain ⟨_, _, _, ht⟩ := trigger_frame _
      rw [ht]
      exact ⟨rfl, rfl⟩
  | halts =>
      obtain ⟨_, _, _, _, _, hb⟩ := beginHalt_frame c
      rw [hb]
      exact ⟨rfl, rfl⟩
  | consumes =>
      obtain ⟨_, _, _, hq⟩ := foldl_dispatch_frame c.queue _
      rw [hq]
      exact ⟨rfl, rfl⟩
  | serves mem served =>
      obtain ⟨_, hc⟩ := called_frame c _
      cases served <;> first | rw [hc]; exact ⟨rfl, rfl⟩ | exact ⟨rfl, rfl⟩
  | notices =>
      obtain ⟨_, _, _, hn⟩ := notice_frame _
      rw [hn]
      exact ⟨rfl, rfl⟩
  | resumes =>
      obtain ⟨_, _, _, _, hr⟩ := resume_frame _
      rw [hr]
      exact ⟨rfl, rfl⟩

end Core

/-! ## Serving a run -/

namespace Pipeline

variable {p : Pipeline}

theorem core_bundled (p : Pipeline) (run : Run) (result : CompileResult)
    (engineRun : EngineRun) :
    ∃ crash, (p.bundled run result engineRun).core =
      if run.generation ≠ p.generation then p.core.finish run.generation none
      else p.core.publish run.generation result
        ((engineRun.outcome Settings.entryId).1.getD p.output.bundles) crash := by
  simp only [bundled]
  split
  · exact ⟨none, core_finish _ _ _⟩
  · obtain ⟨crash, h⟩ := core_publish
      { p with log := p.log ++ (engineRun.outcome Settings.entryId).2 } run result
      ((engineRun.outcome Settings.entryId).1.getD p.output.bundles)
    exact ⟨crash, h⟩

/-- When the compiler has failed, the run fails. -/
theorem core_compiled_of_error {q : Pipeline} {r : Run} {reply : CompilerReply}
    {failure : CompileFailure} (failed : reply.result = .error failure) :
    (q.compiled r reply).core = q.core.fail r.generation := by
  unfold compiled
  rw [failed]
  simp only []
  rw [core_finish]
  split
  · next h =>
      rw [Core.fail, if_pos (show r.generation = q.core.generation from h)]
      rfl
  · next h =>
      rw [Core.fail, if_neg (show r.generation ≠ q.core.generation from h)]
      rfl

/-- The compiler has answered, whether at once or not: `q` is the pipeline in
which its reply is taken. -/
theorem served_compiled {q : Pipeline} {r : Run} {reply : CompilerReply}
    (hq : q.core = p.core.called r) (takes : p.core.Takes r reply) :
    p.core.Served r (q.compiled r reply).core := by
  have hsame : q.generation = p.generation ∧ q.environment = p.environment ∧
      q.output = p.output ∧ q.builds = p.builds := by
    obtain ⟨_, hc⟩ := Core.called_frame p.core r
    rw [hc] at hq
    exact ⟨congrArg Core.generation hq, congrArg Core.environment hq,
      congrArg Core.output hq, congrArg Core.builds hq⟩
  obtain ⟨hg, he, ho, hb⟩ := hsame
  have live : r.stage.isLive = true := by
    rcases takes with h | ⟨h, _⟩ <;> rw [h] <;> rfl
  cases hr : reply.result with
  | error failure =>
      rw [core_compiled_of_error hr, hq]
      exact .fails takes hr
  | ok result =>
      unfold compiled
      rw [hr]
      simp only []
      by_cases hgen : r.generation = q.generation
      · have current : r.generation = p.core.generation := hgen.trans hg
        rw [if_neg (not_not_intro hgen)]
        cases ht : r.options.transpile with
        | false =>
            rw [if_neg (by simp)]
            obtain ⟨crash, h⟩ := core_publish q r result []
            rw [h, hq]
            exact .publish (.modules takes hr ht) current
        | true =>
            rw [if_pos rfl]
            have hcore : ({ q with
                phase := .bundling, builds := q.builds + 1 } : Pipeline).core =
                { p.core.called r with builds := p.core.builds + 1 } := by
              rw [← hq, show p.core.builds = q.builds from hb.symm]
              rfl
            split
            · next engineRun hawait =>
                obtain ⟨crash, h⟩ := core_bundled
                  { q with phase := .bundling, builds := q.builds + 1 } r result engineRun
                rw [h, if_neg (not_not_intro hgen), hcore]
                have hans : p.core.environment.engine result.modules =
                    .atOnce engineRun := by
                  rw [show p.core.environment = q.environment from he.symm]
                  exact Answer.atOnce_of_await hawait
                rw [show q.output = p.core.output from ho]
                exact .publishes (.atOnce takes hr ht hans) current (Nat.le_succ _)
            · next hopen =>
                rw [core_setStage, hcore]
                have hasks : (p.core.environment.engine result.modules).await q.now
                    p.core.builds =
                    (q.environment.engine result.modules).await q.now q.builds := by
                  rw [show p.core.environment = q.environment from he.symm,
                    show p.core.builds = q.builds from hb.symm]
                exact .bundles takes hr current ht hasks hopen
      · rw [if_pos hgen, core_finish, hq]
        exact .superseded live fun h => hgen (h.trans hg.symm)

theorem core_serveRun (p : Pipeline) (generation : Nat) :
    ((p.serveRun generation).core = p.core ∧
        ∀ run, p.run? generation = some run → run.stage ≠ .created) ∨
      ∃ r ∈ p.core.runs, r.generation = generation ∧
        p.core.Served r (p.serveRun generation).core := by
  unfold serveRun
  split
  · next hnone => exact .inl ⟨rfl, fun run hrun => absurd (hnone.symm.trans hrun) (by simp)⟩
  · next run hrun =>
      have hmem : run.forCaller ∈ p.core.runs :=
        mem_core_runs (List.mem_of_find?_eq_some hrun)
      have hgen : run.forCaller.generation = generation := of_decide_eq_true (List.find?_some hrun :)
      split
      · next hs =>
          refine .inr ⟨_, hmem, hgen, ?_⟩
          unfold begin
          split
          · next hn => rw [core_finish]; exact .quits (.inr ⟨hs, hn⟩)
          · next compiler hn =>
              have hcalled : ({ p with calls := p.calls ++ [run.options] } :
                  Pipeline).core = p.core.called run.forCaller := by
                simp [Core.called, core, Run.forCaller, hs]
              simp only []
              split
              · next reply hawait =>
                  exact served_compiled hcalled
                    (.inr ⟨hs, compiler, hn, Answer.atOnce_of_await hawait⟩)
              · next hopen =>
                  rw [core_setStage, hcalled]
                  exact .waits hs hn rfl hopen
      · next reply hs =>
          refine .inr ⟨_, hmem, hgen, ?_⟩
          have hcalled : p.core = p.core.called run.forCaller := by
            simp [Core.called, Run.forCaller, hs]
          exact served_compiled hcalled (.inl hs)
      · next result engineRun hs =>
          refine .inr ⟨_, hmem, hgen, ?_⟩
          have hcalled : p.core = p.core.called run.forCaller := by
            simp [Core.called, Run.forCaller, hs]
          obtain ⟨crash, h⟩ := core_bundled p run result engineRun
          rw [h]
          split
          · next old =>
              have live : run.forCaller.stage.isLive = true := by
                simp [Run.forCaller, hs, Stage.isLive]
              have hd : p.core.finish run.generation none =
                  (p.core.called run.forCaller).finish run.generation none :=
                congrArg (·.finish run.generation none) hcalled
              exact hd ▸ .superseded live old
          · next current =>
              have hd (bundles : List BundleChunk) :
                  p.core.publish run.generation result bundles crash =
                  (p.core.called run.forCaller).publish run.generation result
                    bundles crash :=
                congrArg (fun c : Core =>
                  c.publish run.generation result bundles crash) hcalled
              rw [hd]
              exact .publish (.bundled hs) (Classical.not_not.mp current)
      · next hs =>
          refine .inr ⟨_, hmem, hgen, ?_⟩
          rw [core_finish]
          exact .quits (.inl hs)
      · next hcreated _ _ _ =>
          refine .inl ⟨rfl, fun found hfound => ?_⟩
          rw [hrun] at hfound
          cases hfound
          exact hcreated

/-! ## Acting on a pipeline -/

theorem core_edit (p : Pipeline) (source : Text) :
    (p.edit source).1.core = p.core ∨ ∃ time, (p.edit source).1.core =
      { p.core with
        session := { p.core.session with source }, held := some (time, source) } := by
  rcases p.edit_cases source with h | ⟨-, -, h⟩ <;> rw [h]
  · exact .inl rfl
  · exact .inr ⟨_, rfl⟩

/-- However many listen to an editor, its change comes to one edit at most. -/
theorem core_typeInto (p : Pipeline) (i : Nat) (source : Text) :
    (p.typeInto i source).1.core = p.core ∨
      ∃ time, (p.typeInto i source).1.core =
        { p.core with
          session := { p.core.session with source }, held := some (time, source) } := by
  refine typeInto_rec (motive := fun q : Pipeline => q.core = p.core ∨ ∃ time, q.core =
    { p.core with session := { p.core.session with source }, held := some (time, source) })
    p i source (fun _ => .inl rfl) fun q hq => ?_
  rcases core_edit q source with h | ⟨time, h⟩
  · rcases hq with hq | ⟨time, hq⟩
    · exact .inl (h.trans hq)
    · exact .inr ⟨time, h.trans hq⟩
  · refine .inr ⟨time, h.trans ?_⟩
    rcases hq with hq | ⟨_, hq⟩ <;> rw [hq]

theorem source_withOptions {session chosen : Session} {minify strategy : Option Json}
    {transpile : Option Bool}
    (h : withOptions session minify strategy transpile = .ok chosen) :
    chosen.source = session.source := by
  simp only [withOptions, bind, Except.bind, pure, Except.pure] at h
  grind

theorem core_setOptions (p : Pipeline) (minify strategy : Option Json)
    (transpile : Option Bool) :
    (p.setOptions minify strategy transpile).1.core = p.core ∨
      ∃ session, session.source = p.core.session.source ∧
        (p.setOptions minify strategy transpile).1.core =
          { p.core with session }.trigger := by
  rcases p.setOptions_cases minify strategy transpile with h | ⟨session, given, -, -, h⟩ <;> rw [h]
  · exact .inl rfl
  · exact .inr ⟨session, source_withOptions given, core_trigger _⟩

theorem core_setView (p : Pipeline) (view : Json) :
    (p.setView view).1.core = p.core ∨ ∃ view' : View, (p.setView view).1.core =
      { p.core with session := { p.core.session with view := view' } } := by
  rcases p.setView_cases view with h | ⟨view', -, -, h⟩ <;> rw [h]
  · exact .inl rfl
  · exact .inr ⟨view', rfl⟩

theorem core_load (p : Pipeline) (fragment : Text) :
    (p.load fragment).1.core = p.core ∨ ∃ session : Session,
      (p.load fragment).1.core =
        { p.core with session, settled := session.source, held := none }.trigger := by
  rcases p.load_cases fragment with ⟨-, h⟩ | ⟨-, h⟩ <;> rw [h]
  · exact .inl rfl
  · refine .inr ⟨Fragment.decode p.environment.lead p.environment.newSession fragment, ?_⟩
    rw [core_trigger, core_dropEdit]
    rfl

theorem core_answerCompiler (p : Pipeline) (call : Nat) (reply : CompilerReply) :
    (p.answerCompiler call reply).1.core = p.core ∧
        (∀ r ∈ p.core.runs, r.stage ≠ .compiling (.held call)) ∨
      ∃ r ∈ p.core.runs, r.stage = .compiling (.held call) ∧
        (p.answerCompiler call reply).1.core =
          p.core.setStage r.generation (.compiling (.ready reply)) := by
  simp only [answerCompiler]
  split
  · next run h =>
      refine .inr ⟨run.forCaller, mem_core_runs (List.mem_of_find?_eq_some h), ?_,
        core_resume _ _ _⟩
      have hw := List.find?_some h
      show run.stage = _
      split at hw
      · next hs => rw [hs, of_decide_eq_true hw]
      · cases hw
  · next h =>
      refine .inl ⟨rfl, fun r hr hs => ?_⟩
      obtain ⟨run, hrun, rfl⟩ := List.mem_map.mp hr
      have hw := List.find?_eq_none.mp h run hrun
      simp [show run.stage = _ from hs] at hw

theorem core_answerEngine (p : Pipeline) (call : Nat) (engineRun : EngineRun) :
    (p.answerEngine call engineRun).1.core = p.core ∧
        (∀ r ∈ p.core.runs, ∀ result, r.stage ≠ .bundling result (.held call)) ∨
      ∃ r ∈ p.core.runs, ∃ result, r.stage = .bundling result (.held call) ∧
        (p.answerEngine call engineRun).1.core =
          p.core.setStage r.generation (.bundling result (.ready engineRun)) := by
  simp only [answerEngine]
  split
  · next generation result h =>
      obtain ⟨run, hmem, hr⟩ := List.exists_of_findSome?_eq_some h
      refine .inr ⟨run.forCaller, mem_core_runs hmem, result, ?_⟩
      split at hr
      · next hs =>
          split at hr
          · next hc =>
              cases hr
              exact ⟨by rw [← hc]; exact hs, core_resume _ _ _⟩
          · cases hr
      · cases hr
  · next h =>
      refine .inl ⟨rfl, fun r hr result hs => ?_⟩
      obtain ⟨run, hrun, rfl⟩ := List.mem_map.mp hr
      have hw := List.findSome?_eq_none_iff.mp h run hrun
      simp [show run.stage = _ from hs] at hw

theorem core_start (p : Pipeline) :
    p.start.core = if p.core.loop = .off then
      { p.core with loop := .created, jobs := p.core.jobs ++ [Job.loop] }.trigger
      else p.core := by
  have hl : p.core.loop = p.loop := rfl
  rw [hl]
  rcases p.start_cases with ⟨there, h⟩ | ⟨off, h⟩
  · rw [h, if_neg there]
  · rw [h, if_pos off, core_trigger, core_schedule]
    rfl

theorem core_act (p : Pipeline) (action : Action) :
    p.core.Turn (.act action) (p.act action).1.core := by
  cases action with
  | start =>
      show p.core.Turn _ p.start.core
      rw [core_start]
      split
      · next h => exact .starts h
      · next h => exact .still h
  | edit source =>
      rcases core_edit p source with h | ⟨time, h⟩
      · exact h ▸ .still trivial
      · exact h ▸ .edits source time rfl
  | setOptions minify strategy transpile =>
      rcases core_setOptions p minify strategy transpile with h | ⟨session, hs, h⟩
      · exact h ▸ .still trivial
      · exact h ▸ .chooses session hs rfl
  | setView view =>
      rcases core_setView p view with h | ⟨view', h⟩
      · exact h ▸ .still trivial
      · exact h ▸ .views view view'
  | load fragment =>
      rcases core_load p fragment with h | ⟨session, h⟩
      · exact h ▸ .still trivial
      · exact h ▸ .loads session rfl
  | reload =>
      rcases core_load p p.fragment.current with h | ⟨session, h⟩
      · exact h ▸ .still trivial
      · exact h ▸ .loads session rfl
  | type editor source =>
      rcases core_typeInto p editor source with h | ⟨time, h⟩
      · exact h ▸ .still trivial
      · exact h ▸ .edits source time rfl
  | answerCompiler call reply =>
      show p.core.Turn _ (p.answerCompiler call reply).1.core
      rcases core_answerCompiler p call reply with ⟨h, ignored⟩ | ⟨r, hr, hs, h⟩
      · rw [h]; exact .still ignored
      · exact h ▸ .answers hr hs
  | answerEngine call engineRun =>
      show p.core.Turn _ (p.answerEngine call engineRun).1.core
      rcases core_answerEngine p call engineRun with
        ⟨h, ignored⟩ | ⟨r, hr, result, hs, h⟩
      · rw [h]; exact .still ignored
      · exact h ▸ .builds hr hs
  | wait => exact core_wait p ▸ .still trivial
  | stop | attach _ | subscribe | unsubscribe _ | read _ | setEncoder _ =>
      exact .still trivial

/-! ## Jobs and timers -/

theorem core_line {p : Pipeline} {job : Job} {rest : List Job}
    (h : p.jobs = job :: rest) (hj : job.isCore = true) :
    p.core.jobs = job :: ({ p with jobs := rest } : Pipeline).core.jobs := by
  show p.jobs.filter Job.isCore = job :: rest.filter Job.isCore
  rw [h, List.filter_cons_of_pos hj]

theorem core_line_of_not {p : Pipeline} {job : Job} {rest : List Job}
    (h : p.jobs = job :: rest) (hj : job.isCore = false) :
    ({ p with jobs := rest } : Pipeline).core = p.core := by
  have hf : p.core.jobs = rest.filter Job.isCore := by
    show p.jobs.filter Job.isCore = rest.filter Job.isCore
    rw [h, List.filter_cons_of_neg (by simp [hj])]
  show ({ p.core with jobs := rest.filter Job.isCore } : Core) = p.core
  rw [← hf]

theorem core_serveLoop (p : Pipeline) :
    p.serveLoop.core = match p.core.loop with
      | .created | .woken =>
        { p.core.queue.foldl Core.dispatch { p.core with queue := [] } with
          loop := .waiting }
      | .cancelled =>
        { p.core with loop := .ended, jobs := p.core.jobs ++ [.caller] }
      | _ => p.core := by
  have hl : p.core.loop = p.loop := rfl
  unfold serveLoop
  rw [hl]
  cases h : p.loop with
  | created | woken =>
      show ({ p.consume.core with loop := .waiting } : Core) = _
      rw [core_consume]
      rfl
  | cancelled =>
      rw [core_schedule]
      rfl
  | _ => rfl

theorem core_job {p : Pipeline} {job : Job} {rest : List Job}
    (h : p.jobs = job :: rest) (hscript : p.script = []) :
    p.core.Turn .job (({ p with jobs := rest } : Pipeline).serve job).core := by
  cases job with
  | loop =>
      have line := core_line h rfl
      show p.core.Turn .job ({ p with jobs := rest } : Pipeline).serveLoop.core
      rw [core_serveLoop]
      split
      · next hl => exact .consumes (.inl hl) line
      · next hl => exact .consumes (.inr hl) line
      · next hl => exact .loopEnds hl line
      · next h₁ h₂ h₃ =>
          refine .loopSleeps ?_ line
          show p.loop = .off ∨ p.loop = .waiting ∨ p.loop = .ended
          have hl : p.loop ≠ .created ∧ p.loop ≠ .woken ∧ p.loop ≠ .cancelled :=
            ⟨h₁, h₂, h₃⟩
          revert hl
          cases p.loop <;> simp
  | run generation =>
      have hc : ({ p with jobs := rest } : Pipeline).core = p.core :=
        core_line_of_not h rfl
      rcases core_serveRun ({ p with jobs := rest }) generation with ⟨hs, -⟩ | ⟨r, hr, -, hs⟩
      · exact (hs.trans hc) ▸ .still trivial
      · rw [hc] at hr hs
        exact .serves hr hs
  | reap generation =>
      show p.core.Turn .job (({ p with jobs := rest } : Pipeline).reap generation).core
      rw [core_reap]
      exact .reaps (core_line h rfl)
  | notice watcher =>
      cases watcher with
      | waiter i =>
          have hc : ({ p with jobs := rest } : Pipeline).core = p.core :=
            core_line_of_not h rfl
          exact ((attends_noticeWaiter _ i).core_eq.trans hc) ▸ .still trivial
      | caller =>
          show p.core.Turn .job ({ p with jobs := rest } : Pipeline).noticeCaller.core
          rw [core_noticeCaller]
          exact .notices (core_line h rfl)
  | waiter i =>
      have hc : ({ p with jobs := rest } : Pipeline).core = p.core :=
        core_line_of_not h rfl
      exact ((attends_serveWaiter _ i).core_eq.trans hc) ▸ .still trivial
  | caller =>
      show p.core.Turn .job ({ p with jobs := rest } : Pipeline).serveCaller.core
      rw [core_serveCaller (p := { p with jobs := rest }) hscript]
      exact .resumes (core_line h rfl)

theorem core_editDue {q : Pipeline} (h : p.editDue? = some q) :
    p.core.Turn .editDue q.core := by
  simp only [editDue?, Debouncer.take?, Option.map_eq_some_iff] at h
  obtain ⟨⟨source, debouncer⟩, htake, rfl⟩ := h
  split at htake
  · next time value hheld =>
      split at htake
      · cases htake
        have hs (q : Pipeline) : (q.release q.debouncer.signal).core = q.core :=
          core_release q q.debouncer.signal
        rw [hs, core_trigger]
        exact .fires (c := p.core) hheld
      · cases htake
  · cases htake

theorem core_answerDue {q : Pipeline} (h : p.answerDue? = some q) :
    p.core.Turn .answerDue q.core := by
  obtain ⟨run, hmem, hdue⟩ := List.exists_of_findSome?_eq_some h
  obtain ⟨stage, hstage, rfl⟩ := Option.map_eq_some_iff.mp hdue
  rw [core_resume]
  have hr := mem_core_runs hmem
  unfold Stage.due? at hstage
  split at hstage
  · next time reply hs =>
      split at hstage
      · cases hstage; exact .answerDue (r := run.forCaller) hr hs
      · cases hstage
  · next result time engineRun hs =>
      split at hstage
      · cases hstage; exact .buildDue (r := run.forCaller) hr hs
      · cases hstage
  · cases hstage

theorem core_after_halt (h : p.script = []) (free : p.halt = none) :
    (p.after .halt).core = p.core.beginHalt := by
  have hs : p.beginHalt.script = [] := by
    rw [← h]
    obtain ⟨_, _, _, _, _, hf⟩ := Core.beginHalt_frame p.core
    exact (congrArg Core.script (core_beginHalt p)).trans (congrArg Core.script hf)
  rw [← core_beginHalt]
  simp only [after, free, Option.isNone_none, if_true, proceed]
  split
  · simp [core, hs]
  · simp [core, note, hs]

/-- A move does one of the things in the list. -/
theorem core_turn (p : Pipeline) (move : Move) (h : p.script = []) :
    p.core.Turn move (p.after move).core := by
  cases move with
  | act action => exact core_act p action
  | halt =>
      cases free : p.halt with
      | none => exact core_after_halt h free ▸ .halts free
      | some _ =>
          have hp : p.after .halt = p := by
            simp only [after, free, Option.isNone_some, Bool.false_eq_true, if_false]
          exact hp.symm ▸ .still trivial
  | job =>
      simp only [after]
      split
      · exact .still trivial
      · next hjobs => exact core_job hjobs h
  | editDue =>
      show p.core.Turn .editDue (p.editDue?.getD p).core
      cases hdue : p.editDue? with
      | none => exact .still trivial
      | some q => exact core_editDue hdue
  | answerDue =>
      show p.core.Turn .answerDue (p.answerDue?.getD p).core
      cases hdue : p.answerDue? with
      | none => exact .still trivial
      | some q => exact core_answerDue hdue
  | clock now => exact .still trivial

end Pipeline

end Playground
