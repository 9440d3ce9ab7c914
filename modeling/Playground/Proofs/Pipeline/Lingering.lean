import Playground.Proofs.Pipeline.Announcement
import Playground.Proofs.Pipeline.Calls
import Playground.Proofs.Pipeline.Phase

/-!
# Phases that linger

To display is to publish, which takes no time, and an edit is held back for no longer than the
debouncer holds it. But when the phase is to be settled, and nothing is held back, it is left as
it is for as long as a run is in flight. The phase that is left may have nothing to do with that
run. So when the editor breaks, the phase stays at displaying until the superseded runs have
ended. And when an edit leads to nothing new, it stays at debouncing until the runs have ended.

In a drained state these are the only two ways. What is shown first is how the phase comes to be
displaying, which is by an editor that breaks and in no other way. Then two visits are followed
from one drained state on: an answer by which the latest run publishes, and the end of the time
for which an edit is held back.
-/

namespace Playground

/-- At some step generation `g` was published, and the editor that was mounted broke. -/
def Past.Broke (past : Past) (g : Nat) : Prop :=
  ∃ step ∈ past, step.1.breaks = true ∧ (step.1.after step.2).output ≠ step.1.output ∧
    (step.1.after step.2).output.generation = g

namespace Pipeline

variable {p q : Pipeline}

/-! ## How the phase is set -/

theorem phase_settlePhase (p : Pipeline) : p.settlePhase.phase =
    if p.debouncer.isPending then .debouncing else if p.runs = [] then .idle else p.phase := by
  simp only [settlePhase, List.isEmpty_iff]
  rw [apply_ite phase, apply_ite phase]

theorem phase_reap (p : Pipeline) (generation : Nat) : (p.reap generation).phase =
    if p.debouncer.isPending then .debouncing
    else if ∀ g ∈ p.runs.map Run.generation, g = generation then .idle else p.phase := by
  have struck : (p.runs.filter fun run => run.generation ≠ generation) = [] ↔
      ∀ g ∈ p.runs.map Run.generation, g = generation := by
    simp [List.filter_eq_nil_iff]
  simp only [reap]
  rw [phase_settlePhase]
  split <;> simp only [report, struck]

/-- The phase comes to be displaying by an editor that breaks, and in no other way. -/
theorem displays_after (script : p.script = []) (sound : p.core.Sound) (move : Move)
    (displays : (p.after move).phase = .displaying) :
    p.phase = .displaying ∧ (p.after move).output = p.output ∨
      p.breaks = true ∧ (p.after move).output ≠ p.output := by
  rcases publishes_or_quiet script move with publishes | ⟨output, -⟩
  · right
    revert displays
    generalize p.after move = q at publishes
    intro displays
    cases publishes with
    | @intro base run result bundles outside runs mem isOpen =>
        have breaks := congrArg Pipeline.breaks outside
        change base.breaks = p.breaks at breaks
        -- The run had not ended, so the output that it replaces is not its own.
        have fresh : run.generation ≠ p.output.generation :=
          sound.unpublished run.forCaller (mem_core_runs mem) isOpen
        obtain ⟨_, frame⟩ := publish_frame base run result bundles
        rw [frame] at displays ⊢
        refine ⟨?_, fun same => fresh (congrArg Output.generation same)⟩
        by_contra works
        rw [← breaks] at works
        have phase : (if base.breaks then Phase.displaying
          else if base.debouncer.isPending then .debouncing else .idle) = .displaying := displays
        rw [if_neg works] at phase
        split at phase <;> cases phase
  · left
    -- Of the five shifts only the last one leads to displaying, and it replaces the output.
    cases shift_after script sound move with
    | stays same => exact ⟨same.phase.symm.trans displays, output⟩
    | debounces phase => exact absurd (phase.symm.trans displays) nofun
    | works phase => rw [displays] at phase; simp at phase
    | rests phase => exact absurd (phase.symm.trans displays) nofun
    | displays _ _ _ fresh => exact absurd output fresh

variable {environment : Environment} {window : Int} {fragment : Text}

theorem broke_of_displays (h : new environment window fragment = .ok p) (moves : List Move)
    (displays : (p.follow moves).phase = .displaying) :
    (p.past moves).Broke (p.follow moves).output.generation := by
  induction moves with
  | nil =>
      obtain ⟨_, _, rfl⟩ := new_eq_ok h
      cases displays
  | cons move before ih =>
      have chronicle := chronicle_follow h before
      rcases displays_after chronicle.script chronicle.sound move displays with
        ⟨earlier, same⟩ | ⟨breaks, fresh⟩
      · obtain ⟨step, mem, broke⟩ := ih earlier
        refine ⟨step, List.mem_cons_of_mem _ mem, ?_⟩
        rw [follow, same]
        exact broke
      · exact ⟨_, List.mem_cons_self, breaks, fresh, rfl⟩

/-! ## An answer, and the end of an edit -/

/-- The answer to a call reaches the run that waits for it. -/
theorem answerCompiler_eq (numbered : p.core.Numbered) {run : Run} (mem : run ∈ p.runs)
    {call : Nat} (waits : run.stage = .compiling (.held call)) (reply : CompilerReply) :
    (p.answerCompiler call reply).1 = p.resume run.generation (.compiling (.ready reply)) := by
  simp only [answerCompiler]
  split
  · next s found =>
      have waits' : s.stage = .compiling (.held call) := by
        have test := List.find?_some found
        split at test
        · next c stage =>
            rw [stage]
            simpa using test
        · cases test
      -- No two runs wait for one call.
      have same := numbered.apart run.forCaller (mem_core_runs mem) s.forCaller
        (mem_core_runs (List.mem_of_find?_eq_some found)) (.inl call)
        (by show run.stage.call? = _; rw [waits]; rfl)
        (by show s.stage.call? = _; rw [waits']; rfl)
      exact congrArg (p.resume · (.compiling (.ready reply))) same.symm
  · next none =>
      have other := List.find?_eq_none.mp none run mem
      simp [waits] at other

theorem publish_of_answer (script : p.script = []) (sound : p.core.Sound)
    (numbered : p.core.Numbered) (drained : p.jobs = []) {run : Run} (mem : run ∈ p.runs)
    {call : Nat} (waits : run.stage = .compiling (.held call))
    (latest : run.generation = p.generation) (plain : run.options.transpile = false)
    {reply : CompilerReply} {result : CompileResult} (ok : reply.result = .ok result) :
    let ready : Run := { run with stage := .compiling (.ready reply) }
    let served : Pipeline := { p.setStage run.generation ready.stage with jobs := [] }
    (p.after (.act (.answerCompiler call reply))).after .job = served.publish ready result [] := by
  intro ready served
  let answered := p.resume run.generation ready.stage
  have first : p.after (.act (.answerCompiler call reply)) = answered :=
    answerCompiler_eq numbered mem waits reply
  have line : answered.jobs = [.run run.generation] := by
    show p.jobs ++ [.run run.generation] = _
    rw [drained]
    rfl
  have listed : ready ∈ served.runs := by
    have mapped := List.mem_map_of_mem (f := fun r : Run =>
      if r.generation = run.generation then { r with stage := ready.stage } else r) mem
    rw [if_pos rfl] at mapped
    exact mapped
  -- Generations are distinct, so the run that is looked up is the one that was answered.
  have found : served.run? run.generation = some ready := by
    have turn := core_turn p (.act (.answerCompiler call reply)) script
    rw [first, ← core_line_of_not line rfl] at turn
    exact run?_eq_some (p := served) (sound.turn turn) listed
  have current : ¬ready.generation ≠ served.generation := not_not_intro latest
  have short : ¬ready.options.transpile = true := Bool.eq_false_iff.mp plain
  rw [first, after_job line]
  show served.serveRun run.generation = _
  rw [serveRun, found]
  show served.compiled ready reply = _
  unfold compiled
  rw [ok]
  simp only []
  rw [if_neg current, if_neg short]

/-- A run that has published is taken off the list. That settles the phase, unless another run is
left. -/
theorem phase_of_publish (drained : p.jobs = []) (run : Run) (result : CompileResult)
    (bundles : List BundleChunk) :
    let q := (p.publish run result bundles).after .job
    q.output.generation = run.generation ∧
      q.phase = if p.debouncer.isPending then .debouncing
        else if p.breaks ∧ ∃ g ∈ p.runs.map Run.generation, g ≠ run.generation then .displaying
        else .idle := by
  obtain ⟨_, frame⟩ := publish_frame p run result bundles
  let published := p.publish run result bundles
  have line : published.jobs = .reap run.generation :: published.jobs.tail := by
    rw [show published = _ from frame]
    simp only [finish, schedule, setStage, drained, List.nil_append, List.tail_cons]
  have generations : published.runs.map Run.generation = p.runs.map Run.generation := by
    rw [show published = _ from frame]
    exact map_generation_setStage _ run.generation _
  obtain ⟨phase, debouncer, output⟩ : (published.phase = if p.breaks then .displaying
        else if p.debouncer.isPending then .debouncing else .idle) ∧
      published.debouncer = p.debouncer ∧ published.output.generation = run.generation := by
    rw [show published = _ from frame]
    exact ⟨rfl, rfl, rfl⟩
  let reaped := { published with jobs := published.jobs.tail }.reap run.generation
  have struck : reaped.output = published.output :=
    congrArg Core.output (core_reap { published with jobs := published.jobs.tail } run.generation)
  simp only []
  rw [after_job line]
  refine ⟨(congrArg Output.generation struck).trans output, ?_⟩
  rw [serve, phase_reap]
  show (if published.debouncer.isPending then Phase.debouncing
    else if ∀ g ∈ published.runs.map Run.generation, g = run.generation then .idle
    else published.phase) = _
  rw [generations, debouncer, phase]
  by_cases held : p.debouncer.isPending = true
  · rw [if_pos held, if_pos held]
  · rw [if_neg held, if_neg held, if_neg held]
    by_cases alone : ∀ g ∈ p.runs.map Run.generation, g = run.generation
    · rw [if_pos alone, if_neg]
      rintro ⟨-, g, mem, other⟩
      exact other (alone g mem)
    · have others : ∃ g ∈ p.runs.map Run.generation, g ≠ run.generation := by
        simpa only [not_forall, exists_prop] using alone
      rw [if_neg alone]
      simp only [others, and_true]

theorem phase_of_answer (script : p.script = []) (sound : p.core.Sound)
    (numbered : p.core.Numbered) (drained : p.jobs = []) {run : Run} (mem : run ∈ p.runs)
    {call : Nat} (waits : run.stage = .compiling (.held call))
    (latest : run.generation = p.generation) (plain : run.options.transpile = false)
    {reply : CompilerReply} {result : CompileResult} (ok : reply.result = .ok result) :
    let q := ((p.after (.act (.answerCompiler call reply))).after .job).after .job
    q.output.generation = p.generation ∧
      q.phase = if p.debouncer.isPending then .debouncing
        else if p.breaks ∧ ∃ other ∈ p.runs, other.generation ≠ p.generation then .displaying
        else .idle := by
  let ready : Run := { run with stage := .compiling (.ready reply) }
  let served : Pipeline := { p.setStage run.generation ready.stage with jobs := [] }
  have generations : served.runs.map Run.generation = p.runs.map Run.generation :=
    map_generation_setStage p run.generation ready.stage
  have others : (∃ g ∈ served.runs.map Run.generation, g ≠ ready.generation) ↔
      ∃ other ∈ p.runs, other.generation ≠ p.generation := by
    rw [generations, show ready.generation = p.generation from latest]
    simp
  obtain ⟨output, phase⟩ := phase_of_publish (p := served) rfl ready result []
  simp only []
  rw [publish_of_answer script sound numbered drained mem waits latest plain ok]
  refine ⟨output.trans latest, phase.trans ?_⟩
  simp only [others]
  rfl

theorem phase_dispatch (p : Pipeline) (trigger : Trigger) : (p.dispatch trigger).phase =
    if p.environment.compiler.isNone ∨ p.latest = some (p.optionsFor trigger) then
      p.settlePhase.phase
    else .compiling := by
  simp only [dispatch, Bool.or_eq_true, decide_eq_true_eq]
  rw [apply_ite phase]
  rfl

theorem phase_of_editDue (drained : p.jobs = []) (waiting : p.loop = .waiting)
    (empty : p.queue = []) {time : Nat} {source : Text}
    (held : p.debouncer.held = some (time, source)) (due : time ≤ p.now) :
    let asks := CompileOptions.ofSession p.environment.rootDir p.session source
    let q := (p.after .editDue).after .job
    q.debouncer.isPending = false ∧ q.phase =
      if p.environment.compiler.isNone ∨ p.latest = some asks then
        if p.runs = [] then .idle else p.phase
      else .compiling := by
  intro asks
  let next : Trigger := ⟨p.session, source⟩
  obtain ⟨debouncer, waiters, free, given⟩ : ∃ debouncer waiters,
      debouncer.isPending = false ∧ p.after .editDue = { p with
        debouncer, settled := source, queue := [next], loop := .woken
        jobs := .loop :: waiters } := by
    rcases editDue_cases p with ⟨-, -, early⟩ | ⟨t, s, held', -, -, after⟩
    · exact absurd due (Nat.not_le_of_lt (early _ _ held))
    · cases held.symm.trans held'
      rw [after]
      simp only [trigger, waiting, empty, release, schedule, drained]
      exact ⟨_, _, rfl, rfl⟩
  let taken : Pipeline := { p with
    debouncer, settled := source, queue := [], loop := .woken, jobs := waiters }
  have served : (p.after .editDue).after .job =
      { ({ taken.dispatch next with queueWaiting := [] } : Pipeline).schedule
          ((taken.dispatch next).queueWaiting.map .waiter) with loop := .waiting } := by
    rw [given, after_job rfl]
    rfl
  have same : (taken.dispatch next).debouncer.isPending = debouncer.isPending := by
    obtain ⟨_, _, _, frame⟩ := Core.dispatch_frame taken.core next
    exact congrArg (·.held.isSome) ((core_dispatch taken next).trans frame)
  simp only []
  rw [served]
  refine ⟨same.trans free, ?_⟩
  show (taken.dispatch next).phase = _
  rw [phase_dispatch, phase_settlePhase, if_neg (Bool.eq_false_iff.mp free)]
  rfl

/-- In a drained state with the control loop there, the phase is displaying only if an editor broke
when the latest run published, and runs that it superseded are in flight. It is debouncing only if
an edit is held back or a run is in flight. That both do occur is shown of two visits from there
on. When the latest run gets its answer, it publishes, and the phase is displaying if the editor
breaks and another run is in flight. When the edit that is held back is due and it leads to
nothing new, the phase stays as it is if a run is in flight. -/
theorem lingers_while_in_flight (h : new environment window fragment = .ok p) (moves : List Move)
    (drained : (p.follow moves).jobs = []) (there : (p.follow moves).loop ≠ .off) :
    let q := p.follow moves
    (q.phase = .displaying → q.debouncer.isPending = false ∧ q.output.generation = q.generation ∧
      (p.past moves).Broke q.generation ∧ q.runs ≠ [] ∧
      ∀ run ∈ q.runs, run.generation < q.generation) ∧
    (q.phase = .debouncing → q.debouncer.isPending = true ∨
      ∃ run ∈ q.runs, run.stage.isOver = false) ∧
    (∀ run ∈ q.runs, ∀ call, run.stage = .compiling (.held call) →
      run.generation = q.generation → run.options.transpile = false →
      ∀ reply result, reply.result = .ok result →
        let after := p.follow (.job :: .job :: .act (.answerCompiler call reply) :: moves)
        after.output.generation = q.generation ∧
          after.phase = if q.debouncer.isPending then .debouncing
            else if q.breaks ∧ ∃ other ∈ q.runs, other.generation ≠ q.generation then .displaying
            else .idle) ∧
    ∀ time source, q.debouncer.held = some (time, source) → time ≤ q.now →
      let asks := CompileOptions.ofSession q.environment.rootDir q.session source
      let after := p.follow (.job :: .editDue :: moves)
      after.debouncer.isPending = false ∧
        after.phase = if q.environment.compiler.isNone ∨ q.latest = some asks then
            if q.runs = [] then .idle else q.phase
          else .compiling := by
  intro q
  have chronicle := chronicle_follow h moves
  have truthful : q.Truthful := truthful_follow h moves
  obtain ⟨inFlight, waiting⟩ := drained_follow h drained
  obtain ⟨waiting, empty⟩ := waiting there
  -- If nothing were in flight, the phase would be idle.
  have busy (free : q.debouncer.isPending = false) (phase : q.phase ≠ .idle) : q.runs ≠ [] :=
    fun ended => phase (truthful.resting ⟨free, empty, ended, .inr (.inl waiting)⟩)
  refine ⟨fun displays => ?_, fun debounces => ?_, ?_, ?_⟩
  · obtain ⟨latest, listed⟩ := truthful.displaying displays
    -- The latest run has published, so it has ended, and no run on the list has.
    have older : ∀ run ∈ q.runs, run.generation < q.generation := fun run mem => by
      have unpublished : run.generation ≠ q.output.generation :=
        chronicle.sound.unpublished run.forCaller (mem_core_runs mem) (inFlight run mem)
      rw [latest] at unpublished
      exact Nat.lt_of_le_of_ne (chronicle.sound.le run.forCaller (mem_core_runs mem)) unpublished
    have free : q.debouncer.isPending = false := Bool.eq_false_iff.mpr fun held => by
      obtain ⟨run, mem, same⟩ := List.mem_map.mp (listed held)
      exact absurd same (Nat.ne_of_lt (older run mem))
    have broke := broke_of_displays h moves displays
    rw [show (p.follow moves).output.generation = q.generation from latest] at broke
    exact ⟨free, latest, broke, busy free (by rw [displays]; nofun), older⟩
  · cases held : q.debouncer.isPending with
    | true => exact .inl rfl
    | false =>
        obtain ⟨run, mem⟩ := List.exists_mem_of_ne_nil _ (busy held (by rw [debounces]; nofun))
        exact .inr ⟨run, mem, inFlight run mem⟩
  · intro run mem call waits latest plain reply result ok
    exact phase_of_answer chronicle.script chronicle.sound chronicle.numbered drained mem waits
      latest plain ok
  · intro time source held due
    exact phase_of_editDue drained waiting empty held due

end Pipeline

/-- The editor breaks, the first run waits for the compiler, and so does the second, which an
option was changed for. The moves are listed latest first. -/
def Move.twoInFlight : List Move :=
  [.job, .job, .act (.setOptions (some (.str (text "minify"))) none none), .job, .job,
    .act .start, .act (.attach .broken)]

/-- The first run waits for the compiler, and the source is changed and changed back. When the
second edit is due, the source is the one that the run asked for. -/
def Move.editedBack : List Move :=
  [.clock 200, .act (.edit (text "a")), .act (.edit (text "b")), .job, .job, .act .start]

namespace Pipeline

theorem lingers_while_first_in_flight : ∃ p, new .gated 200 [] = .ok p ∧
    (p.follow (.job :: .job :: .act (.answerCompiler 1 (.answered (.obj []))) ::
      Move.twoInFlight)).phase = .displaying ∧
    (p.follow (.job :: .editDue :: Move.editedBack)).phase = .debouncing := by
  refine ⟨_, rfl, ?_, ?_⟩
  · have answer := (@lingers_while_in_flight _ .gated 200 [] rfl Move.twoInFlight rfl
      (by decide)).2.2.1
    have phase := (answer _ (.tail _ (.head _)) 1 rfl rfl rfl (.answered (.obj [])) _ rfl).2
    refine phase.trans ((if_neg Bool.false_ne_true).trans (if_pos ?_))
    exact ⟨rfl, _, .head _, by decide⟩
  · have due := (@lingers_while_in_flight _ .gated 200 [] rfl Move.editedBack rfl
      (by decide)).2.2.2
    exact (due 200 (text "a") rfl (Nat.le_refl _)).2.trans (if_pos (.inr rfl))

/-- The first run is in flight, and in both states nothing is in line or held back. -/
theorem lingers_when_drained : ∃ p, new .gated 200 [] = .ok p ∧
    (let q := p.follow (.job :: .job :: .act (.answerCompiler 1 (.answered (.obj []))) ::
      Move.twoInFlight)
    q.jobs = [] ∧ q.loop = .waiting ∧ q.debouncer.isPending = false ∧ q.phase = .displaying) ∧
    (let q := p.follow (.job :: .editDue :: Move.editedBack)
    q.jobs = [] ∧ q.loop = .waiting ∧ q.debouncer.isPending = false ∧ q.phase = .debouncing) :=
  ⟨_, rfl, ⟨rfl, rfl, rfl, rfl⟩, rfl, rfl, rfl, rfl⟩

end Pipeline

end Playground
