import Playground.Proofs.Pipeline.Calls
import Playground.Proofs.Pipeline.Timing

/-!
# Which runs are started does not depend on the compiler

What is asked for follows from who came at which time, which runs are started follows from
what is asked for, and each of them calls the compiler once, in order. The compiler has a
say in this only when it fails, because a run that failed may be tried again.

So of two pipelines to which the same people come at the same times, as long as no run
fails, the one starts the same runs as the other, however long the compiler and the engine
take, and whatever they answer.
-/

namespace Playground

namespace Pipeline

variable {p q : Pipeline} {environment : Environment} {window : Int} {fragment : Text}
  {moves : List Move}

/-- When there is nothing left to be done, the triggers have been worked off. -/
theorem queue_of_drained (h : new environment window fragment = .ok p) (hm : .halt ∉ moves)
    (started : .act .start ∈ moves) (drained : (p.follow moves).jobs = []) :
    (p.follow moves).queue = [] := by
  have unhalted := unhalted_follow h hm
  have lined := (orderly_follow h moves).lined
  have served : ∀ job, job ∉ (p.follow moves).core.jobs := by
    intro job hjob
    have mem := (List.mem_filter.mp hjob).1
    rw [drained] at mem
    cases mem
  cases hl : (p.follow moves).loop with
  | off => exact absurd started ((off_follow h hm).mp hl)
  | waiting => exact lined.waiting hl
  | created => exact absurd (lined.awake (.inl hl)) (served _)
  | woken => exact absurd (lined.awake (.inr hl)) (served _)
  | cancelled => exact absurd hl unhalted.loop.1
  | ended => exact absurd hl unhalted.loop.2

/-- What users put in is the same with another compiler and another engine. -/
theorem input_new {compiler : Option (CompileOptions → Answer CompilerReply)}
    {engine : List Artifact → Answer EngineRun} (hp : new environment window fragment = .ok p)
    (hq : new { environment with compiler, engine } window fragment = .ok q) :
    p.input = q.input := by
  unfold new at hp hq
  cases debouncer : Debouncer.ofWindow window with
  | error e =>
      rw [debouncer] at hp
      cases hp
  | ok _ =>
      rw [debouncer] at hp hq
      cases hp
      cases hq
      rfl

end Pipeline

/-- What triggers ask does not depend on what the compiler answers. -/
theorem Environment.asks_congr (environment : Environment)
    {compiler : Option (CompileOptions → Answer CompilerReply)}
    {engine : List Artifact → Answer EngineRun}
    (same : compiler.isSome = environment.compiler.isSome) (triggers : List Trigger) :
    Environment.asks { environment with compiler, engine } triggers = environment.asks triggers := by
  unfold asks
  cases compiler with
  | none =>
      cases h : environment.compiler with
      | none => rfl
      | some _ =>
          rw [h] at same
          cases same
  | some _ =>
      cases h : environment.compiler with
      | none =>
          rw [h] at same
          cases same
      | some _ => rfl

namespace Pipeline

variable {p q : Pipeline} {environment : Environment} {window : Int} {fragment : Text}
  {moves moves' : List Move}

/-- When no run fails, what the runs ask is what was asked for, as far as it has been worked
off, without what is the same as the one before. -/
theorem minted_eq_destutter (h : new environment window fragment = .ok p) (hm : .halt ∉ moves)
    (never : (p.past moves).NoneFails) :
    ∃ worked, p.requested moves = worked ++ (p.follow moves).queue ∧
      p.minted moves = (environment.asks worked).destutter (· ≠ ·) := by
  obtain ⟨worked, requested, minting⟩ := minting_follow h hm
  have given : (p.follow moves).core.environment = environment := (chronicle_follow h moves).given
  have minted := (minting.renews never).1
  rw [given] at minted
  exact ⟨worked, requested, minted⟩

/-- The same people come at the same times, no run fails, and all that was asked for has been
worked off: then the same runs are started, whatever the compiler and the engine do. -/
theorem minted_eq_of_timetable {compiler : Option (CompileOptions → Answer CompilerReply)}
    {engine : List Artifact → Answer EngineRun}
    (same : compiler.isSome = environment.compiler.isSome)
    (hp : new environment window fragment = .ok p)
    (hq : new { environment with compiler, engine } window fragment = .ok q)
    (hm : .halt ∉ moves) (hm' : .halt ∉ moves') (never : (p.past moves).NoneFails)
    (never' : (q.past moves').NoneFails) (forward : p.Forward moves)
    (forward' : q.Forward moves') (timetable : q.timetable moves' = p.timetable moves)
    (queue : (p.follow moves).queue = []) (queue' : (q.follow moves').queue = []) :
    q.minted moves' = p.minted moves := by
  obtain ⟨worked, requested, minted⟩ := minted_eq_destutter hp hm never
  obtain ⟨worked', requested', minted'⟩ := minted_eq_destutter hq hm' never'
  rw [queue, List.append_nil] at requested
  rw [queue', List.append_nil] at requested'
  have asked : p.requested moves = q.requested moves' :=
    requested_eq_of_timetable hp hq (input_new hp hq) hm hm' forward forward' timetable.symm
  rw [minted, minted', environment.asks_congr same, ← requested', ← asked, requested]

/-- Which runs a pipeline that nobody halts starts. The runs are told by what they ask, in
the order of their generations. Two in a row ask the same only when the first of them failed
before the second was started. If no run failed, they ask what was asked for, as far as it
has been worked off, in this order, without what is the same as the one before. Each calls
the compiler once, in this order. And with another compiler and another engine the same runs
are started, if the same people come at the same times. -/
theorem starts_what_is_requested (h : new environment window fragment = .ok p)
    (unhalted : .halt ∉ moves) :
    let q := p.follow moves
    ((p.minted moves).length = q.generation ∧
      ∀ r ∈ q.runs, ∃ g, r.generation = g + 1 ∧ (p.minted moves)[g]? = some r.options) ∧
    (∀ (g : Nat) o, (p.minted moves)[g]? = some o → (p.minted moves)[g + 1]? = some o →
      (p.past moves).Fails (g + 1) o) ∧
    ((p.past moves).NoneFails → ∃ worked, p.requested moves = worked ++ q.queue ∧
      p.minted moves = (environment.asks worked).destutter (· ≠ ·)) ∧
    q.calls <+: p.minted moves ∧
    (q.jobs = [] → q.calls = p.minted moves ∧ (.act .start ∈ moves → q.queue = [])) ∧
    ∀ (compiler : Option (CompileOptions → Answer CompilerReply)) engine p' moves',
      compiler.isSome = environment.compiler.isSome →
      new { environment with compiler, engine } window fragment = .ok p' → .halt ∉ moves' →
      (p.past moves).NoneFails → (p'.past moves').NoneFails →
      p.Forward moves → p'.Forward moves' → p'.timetable moves' = p.timetable moves →
      q.queue = [] → (p'.follow moves').queue = [] → p'.minted moves' = p.minted moves := by
  intro q
  obtain ⟨_, -, minting⟩ := minting_follow h unhalted
  obtain ⟨inOrder, calls⟩ := calls_follow h unhalted
  refine ⟨⟨minting.length, fun r hr => minting.options r.forCaller (mem_core_runs hr)⟩,
    minting.repeats, minted_eq_destutter h unhalted, ⟨_, calls⟩, ?_, ?_⟩
  · intro drained
    have none := inOrder.fresh_eq_nil drained
    rw [none, List.map_nil, List.append_nil] at calls
    exact ⟨calls, fun started => queue_of_drained h unhalted started drained⟩
  · intro compiler engine p' moves' same h' unhalted' never never' forward forward' timetable
      queue queue'
    exact minted_eq_of_timetable same h h' unhalted unhalted' never never' forward forward'
      timetable queue queue'

/-- An option is changed after the start. It makes no difference whether the control loop comes
in between, nor that the compiler never answers. -/
theorem starts_the_same_without_answers : ∃ p p', new .prompt 0 [] = .ok p ∧
    new { Environment.prompt with compiler := some fun _ => .onRequest } 0 [] = .ok p' ∧
    let choice := Move.act (.setOptions (some (.str (text "minify"))) none none)
    let minted := p.minted [.job, .job, choice, .job, .act .start]
    p'.minted [.job, choice, .act .start] = minted ∧ minted.length = 2 := by
  refine ⟨_, _, rfl, rfl, ?_⟩
  have never {past : Past} (kept : ∀ step ∈ past, step.1.runs = [] ∨
      (step.1.after step.2).latest.isSome = true) : past.NoneFails := by
    rintro g o ⟨step, mem, -, fails⟩
    have forgotten : (step.1.after step.2).latest = none := fails.latest_eq_none
    obtain ⟨r, hr, -⟩ := fails
    rcases kept step mem with none | latest
    · rw [core_runs_eq_nil.mpr none] at hr
      cases hr
    · rw [forgotten] at latest
      cases latest
  intro choice minted
  obtain ⟨⟨length, -⟩, -, -, -, -, same⟩ := @starts_what_is_requested _ .prompt 0 []
    [.job, .job, choice, .job, .act .start] rfl (by simp [choice])
  refine ⟨same (some fun _ => .onRequest) _ _ [.job, choice, .act .start] rfl rfl
    (by simp [choice]) (never ?_) (never ?_) trivial trivial rfl rfl rfl, length.trans ?_⟩
  · decide
  · decide
  · decide

end Pipeline

end Playground
