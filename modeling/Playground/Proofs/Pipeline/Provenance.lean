import Playground.Proofs.Pipeline.Advance

/-!
# Where the results of a run come from

Whatever a run carries it got in the past: its options are those that it was
created for, its reply is what the compiler answered to them, and the engine's
run is what the engine made of the result. A run says so itself only as long as
it lasts, so the facts are kept for the whole past. No two runs of one
generation ever asked for different options, and none was answered twice.

The second holds for two reasons. Calls are told apart by number, so that an
answer reaches one run only. And a run that got its answer does not wait for it
again.
-/

namespace Playground

/-- The call, to the compiler or to the engine, that a run waits for until
someone answers it. -/
def Stage.call? : Stage → Option (Nat ⊕ Nat)
  | .compiling (.held call) => some (.inl call)
  | .bundling _ (.held call) => some (.inr call)
  | _ => none

/-- Whether a run waits neither for the compiler nor for the engine. -/
def Stage.isBuilt : Stage → Bool
  | .created | .compiling _ | .bundling _ (.held _) | .bundling _ (.at ..) => false
  | _ => true

namespace Past

variable {past : Past} {environment : Environment} {generation : Nat}
  {options : CompileOptions}

/-- What a run has got at a stage is founded on the past. -/
def Founded (past : Past) (environment : Environment) (generation : Nat)
    (options : CompileOptions) : Stage → Prop
  | .created | .cancelled | .finished _ => True
  | .compiling (.held _) => ∃ compiler, environment.compiler = some compiler ∧
      compiler options = .onRequest
  | .compiling (.at _ reply) | .compiling (.ready reply) =>
    past.Answered environment generation options reply
  | .bundling result await =>
    options.transpile = true ∧
      (∃ reply, past.Answered environment generation options reply ∧
        reply.result = .ok result) ∧
      match await with
      | .held _ => environment.engine result.modules = .onRequest
      | .at _ engineRun | .ready engineRun =>
        past.Built environment generation result engineRun

theorem Founded.cons {stage : Stage}
    (h : past.Founded environment generation options stage)
    (step : Pipeline × Move) :
    Founded (step :: past) environment generation options stage := by
  cases stage with
  | created | cancelled | finished => trivial
  | compiling await =>
      cases await with
      | held => exact h
      | «at» | ready => exact Answered.cons h step
  | bundling result await =>
      obtain ⟨ht, ⟨reply, ha, hr⟩, hb⟩ := h
      refine ⟨ht, ⟨reply, ha.cons step, hr⟩, ?_⟩
      cases await with
      | held => exact hb
      | «at» | ready => exact Built.cons hb step

/-- What was seen is seen now or was seen before, and the core is enough to
see it. -/
theorem saw_cons {p : Pipeline} {move : Move}
    {event : Move → CompileOptions → Stage → Prop} :
    Saw ((p, move) :: past) event generation ↔
      (∃ r ∈ p.core.runs, r.generation = generation ∧
        event move r.options r.stage) ∨ past.Saw event generation := by
  constructor
  · rintro ⟨step, hstep, run, hrun, rest⟩
    rcases List.mem_cons.mp hstep with rfl | hstep
    · exact .inl ⟨_, Pipeline.mem_core_runs hrun, rest⟩
    · exact .inr ⟨step, hstep, run, hrun, rest⟩
  · rintro (⟨r, hr, hg, he⟩ | h)
    · obtain ⟨run, hrun, hg', ho, hs⟩ := Pipeline.exists_of_mem_core_runs hr
      exact ⟨_, List.mem_cons_self, run, hrun, hg'.trans hg, by rw [ho, hs]; exact he⟩
    · exact h.cons _

end Past

namespace Core

variable {c d : Core} {r s : Run} {move : Move}

/-! ## Calls are told apart -/

/-- A call has been made. -/
def Made (c : Core) : Nat ⊕ Nat → Prop
  | .inl call => call < c.calls.length
  | .inr call => call < c.builds

/-- No two runs wait for the same call. -/
structure Numbered (c : Core) : Prop where
  made : ∀ r ∈ c.runs, ∀ call, r.stage.call? = some call → c.Made call
  apart : ∀ r ∈ c.runs, ∀ s ∈ c.runs, ∀ call,
    r.stage.call? = some call → s.stage.call? = some call →
      r.generation = s.generation

theorem Made.turn {call : Nat ⊕ Nat} (h : c.Made call) (turn : c.Turn move d) :
    d.Made call := by
  obtain ⟨_, hcalls, hbuilds⟩ := turn.grows
  cases call with
  | inl call => exact Nat.lt_of_lt_of_le h hcalls.length_le
  | inr call => exact Nat.lt_of_lt_of_le h hbuilds

/-- A run that waits for a call has waited for it before, or has just made
it. -/
theorem Turn.waits (h : c.Sound) (turn : c.Turn move d) (hs : s ∈ d.runs)
    {call : Nat ⊕ Nat} (waits : s.stage.call? = some call) :
    (∃ r ∈ c.runs, r.generation = s.generation ∧ r.stage.call? = some call) ∨
      ¬ c.Made call ∧ d.Made call ∧
        ∀ t ∈ d.runs, t.generation ≠ s.generation → t ∈ c.runs := by
  rcases turn.continues h hs with ⟨r, hr, hg, _, hsame | hadvance⟩ | ⟨_, hcreated⟩
  · exact .inl ⟨r, hr, hg, by rw [← hsame]; exact waits⟩
  · rw [← hg]
    cases hstage : s.stage with
    | created | cancelled | finished => rw [hstage] at waits; cases waits
    | compiling await =>
        rw [hstage] at hadvance waits
        cases hadvance with
        | answers | answerDue => cases waits
        | @waits compiler _ _ created given asks isOpen calls others =>
            cases hc : compiler r.options <;> rw [hc] at asks <;> cases asks <;>
              cases waits
            refine .inr ⟨Nat.lt_irrefl _, ?_, others⟩
            show c.calls.length < d.calls.length
            rw [calls]
            simp
    | bundling result await =>
        rw [hstage] at hadvance waits
        cases hadvance with
        | builds | buildDue => cases waits
        | bundles takes ok transpile asks isOpen builds others =>
            cases hc : c.environment.engine result.modules <;> rw [hc] at asks <;>
              cases asks <;> cases waits
            refine .inr ⟨Nat.lt_irrefl _, ?_, others⟩
            show c.builds < d.builds
            rw [builds]
            exact Nat.lt_succ_self _
  · rw [hcreated] at waits
    cases waits

theorem Numbered.turn (n : c.Numbered) (h : c.Sound) (turn : c.Turn move d) :
    d.Numbered where
  made s hs call waits := by
    rcases turn.waits h hs waits with ⟨r, hr, _, hw⟩ | ⟨_, hmade, _⟩
    · exact (n.made r hr call hw).turn turn
    · exact hmade
  apart s hs t ht call hsw htw := by
    rcases turn.waits h hs hsw with ⟨r, hr, hg, hw⟩ | ⟨hnew, _, hothers⟩
    · rcases turn.waits h ht htw with ⟨r', hr', hg', hw'⟩ | ⟨hnew, _, _⟩
      · rw [← hg, ← hg']
        exact n.apart r hr r' hr' call hw hw'
      · exact absurd (n.made r hr call hw) hnew
    · by_contra hne
      exact hnew (n.made t (hothers t ht (Ne.symm hne)) call htw)

/-- An answer from the compiler reaches the run that waits for it. -/
theorem Numbered.answer (n : c.Numbered) {call : Nat} {reply : CompilerReply}
    (turn : c.Turn (.act (.answerCompiler call reply)) d) (mem : r ∈ c.runs)
    (waits : r.stage = .compiling (.held call)) :
    d = c.setStage r.generation (.compiling (.ready reply)) := by
  cases turn with
  | still ignored => exact absurd waits (ignored r mem)
  | edits _ _ input | chooses _ _ input | loads _ input => cases input
  | @answers _ _ s mem' waits' =>
      rw [n.apart r mem s mem' (.inl call) (by rw [waits]; rfl) (by rw [waits']; rfl)]

/-- An answer from the engine reaches the run that waits for it. -/
theorem Numbered.build (n : c.Numbered) {call : Nat} {engineRun : EngineRun}
    {result : CompileResult} (h : c.Sound)
    (turn : c.Turn (.act (.answerEngine call engineRun)) d) (mem : r ∈ c.runs)
    (waits : r.stage = .bundling result (.held call)) :
    d = c.setStage r.generation (.bundling result (.ready engineRun)) := by
  cases turn with
  | still ignored => exact absurd waits (ignored r mem result)
  | edits _ _ input | chooses _ _ input | loads _ input => cases input
  | @builds _ _ result' s mem' waits' =>
      have hg := n.apart r mem s mem' (.inr call) (by rw [waits]; rfl)
        (by rw [waits']; rfl)
      have hs := h.eq_of_generation mem mem' hg
      rw [← hs, waits] at waits'
      cases waits'
      rw [hg]

theorem stage_of_mem_setStage {generation : Nat} {stage : Stage}
    (hs : s ∈ (c.setStage generation stage).runs) (hg : s.generation = generation) :
    s.stage = stage := by
  obtain ⟨t, _, rfl⟩ := List.mem_map.mp hs
  split
  · rfl
  · next hne => rw [if_neg hne] at hg; exact absurd hg hne

theorem Advance.isBuilt {stage : Stage} (h : c.Advance d r move stage)
    (built : r.stage.isBuilt = true) : stage.isBuilt = true := by
  cases h with
  | waits created => rw [created] at built; cases built
  | answers waits => rw [waits] at built; cases built
  | answerDue waits => rw [waits] at built; cases built
  | bundles takes =>
      rcases takes with hs | ⟨hs, _⟩ <;> rw [hs] at built <;> cases built
  | _ => rfl

end Core

/-! ## What is remembered of a run

An event in the past of a run leaves a mark on the run, and the mark stays as
long as the run does. If the mark tells what the event was, or if it prevents
further events, no run has two such events in its past. -/

/-- The events of the past have left their marks, and no run has had two of
them. -/
structure Remembers {α : Type} (event : α → Move → CompileOptions → Stage → Prop)
    (mark : α → CompileOptions → Stage → Prop) (past : Past) (c : Core) : Prop where
  le : ∀ {g a}, past.Saw (event a) g → g ≤ c.generation
  marked : ∀ {g a}, past.Saw (event a) g → ∀ r ∈ c.runs, r.generation = g →
    mark a r.options r.stage
  unique : ∀ {g a b}, past.Saw (event a) g → past.Saw (event b) g → a = b

section Remembers

variable {α : Type} {event : α → Move → CompileOptions → Stage → Prop}
  {mark : α → CompileOptions → Stage → Prop} {past : Past} {p : Pipeline}
  {c d : Core} {move : Move}

theorem not_saw_nil {event : Move → CompileOptions → Stage → Prop} {g : Nat} :
    ¬ Past.Saw [] event g := by
  rintro ⟨_, h, _⟩
  cases h

theorem Remembers.nil : Remembers event mark [] c where
  le h := absurd h not_saw_nil
  marked h := absurd h not_saw_nil
  unique h := absurd h not_saw_nil

theorem Remembers.next (h : Remembers event mark past p.core) (sound : p.core.Sound)
    (turn : p.core.Turn move d)
    (marks : ∀ {a r}, r ∈ p.core.runs → event a move r.options r.stage →
      ∀ s ∈ d.runs, s.generation = r.generation → mark a s.options s.stage)
    (keeps : ∀ {a r stage}, mark a r.options r.stage →
      p.core.Advance d r move stage → mark a r.options stage)
    (once : ∀ {a b options stage}, mark a options stage →
      event b move options stage → a = b)
    (one : ∀ {a b options stage}, event a move options stage →
      event b move options stage → a = b) :
    Remembers event mark ((p, move) :: past) d where
  le ha := by
    refine Nat.le_trans ?_ turn.grows.1
    rcases Past.saw_cons.mp ha with ⟨r, hr, rfl, _⟩ | ha
    · exact sound.le r hr
    · exact h.le ha
  marked ha s hs hg := by
    rcases Past.saw_cons.mp ha with ⟨r, hr, hgr, he⟩ | ha
    · exact marks hr he s hs (hg.trans hgr.symm)
    · rcases turn.continues sound hs with ⟨r, hr, hgr, ho, hst⟩ | ⟨hlt, _⟩
      · have hm := h.marked ha r hr (hgr.trans hg)
        rw [← ho]
        rcases hst with hsame | hadvance
        · rw [hsame]
          exact hm
        · exact keeps hm hadvance
      · exact absurd (hg ▸ h.le ha) (Nat.not_le_of_lt hlt)
  unique ha hb := by
    rcases Past.saw_cons.mp ha with ⟨r, hr, hg, he⟩ | ha
    · rcases Past.saw_cons.mp hb with ⟨s, hs, hg', he'⟩ | hb
      · rw [sound.eq_of_generation hs hr (hg'.trans hg.symm)] at he'
        exact one he he'
      · exact (once (h.marked hb r hr hg) he).symm
    · rcases Past.saw_cons.mp hb with ⟨s, hs, hg, he⟩ | hb
      · exact once (h.marked ha s hs hg) he
      · exact h.unique ha hb

end Remembers

/-! ## The chronicle of a course -/

/-- What the past and the core know of each other. -/
structure Chronicle (environment : Environment) (past : Past) (c : Core) : Prop where
  given : c.environment = environment
  script : c.script = []
  sound : c.Sound
  numbered : c.Numbered
  founded : ∀ r ∈ c.runs,
    past.Founded environment r.generation r.options r.stage
  generation_le : ∀ step ∈ past, step.1.generation ≤ c.generation
  asked : Remembers (fun options _ asked _ => asked = options)
    (fun options asked _ => asked = options) past c
  told : Remembers
    (fun reply move _ stage => ∃ call, move = .act (.answerCompiler call reply) ∧
      stage = .compiling (.held call))
    (fun _ _ stage => stage.isAnswered = true) past c
  handed : Remembers
    (fun (given : CompileResult × EngineRun) move _ stage => ∃ call,
      move = .act (.answerEngine call given.2) ∧
        stage = .bundling given.1 (.held call))
    (fun _ _ stage => stage.isBuilt = true) past c

namespace Chronicle

variable {environment : Environment} {past : Past} {p : Pipeline} {c d : Core}
  {move : Move} {r s : Run}

theorem nil (given : c.environment = environment) (script : c.script = [])
    (runs : c.runs = []) (output : c.output.generation = 0) (jobs : c.jobs = []) :
    Chronicle environment [] c where
  given := given
  script := script
  sound := by constructor <;> simp [runs, output, jobs]
  numbered := by constructor <;> simp [runs]
  founded := by simp [runs]
  generation_le := List.forall_mem_nil _
  asked := .nil
  told := .nil
  handed := .nil

/-- A run that takes a reply was given it by the compiler. -/
theorem answered_of_takes (h : Chronicle environment past c) (mem : r ∈ c.runs)
    {reply : CompilerReply} (takes : c.Takes r reply) :
    past.Answered environment r.generation r.options reply := by
  rcases takes with hs | ⟨_, compiler, given, answer⟩
  · have hf := h.founded r mem
    rw [hs] at hf
    exact hf
  · exact .atOnce (h.given ▸ given) answer

theorem founded_of_advance (h : Chronicle environment past p.core)
    (mem : r ∈ p.core.runs) {stage : Stage}
    (advance : p.core.Advance d r move stage) :
    Past.Founded ((p, move) :: past) environment r.generation r.options stage := by
  have hf := (h.founded r mem).cons (p, move)
  cases advance with
  | @waits compiler now await created given asks isOpen =>
      have given' : environment.compiler = some compiler := h.given ▸ given
      cases hc : compiler r.options with
      | atOnce reply => rw [hc] at asks; exact absurd asks.symm (isOpen reply)
      | after ms reply => rw [hc] at asks; cases asks; exact .after given' hc
      | onRequest => rw [hc] at asks; cases asks; exact ⟨compiler, given', hc⟩
  | answers waits =>
      rw [waits] at hf
      obtain ⟨compiler, given, answer⟩ := hf
      exact .told given answer
        (Past.saw_cons.mpr (.inl ⟨r, mem, rfl, _, rfl, waits⟩))
  | answerDue waits =>
      rw [waits] at hf
      exact hf
  | @bundles reply result now await takes ok transpile asks isOpen =>
      refine ⟨transpile, ⟨reply, (h.answered_of_takes mem takes).cons _, ok⟩, ?_⟩
      rw [h.given] at asks
      cases hc : environment.engine result.modules with
      | atOnce run => rw [hc] at asks; exact absurd asks.symm (isOpen run)
      | after ms run => rw [hc] at asks; cases asks; exact .after hc
      | onRequest => rw [hc] at asks; cases asks; rfl
  | builds waits =>
      rw [waits] at hf
      obtain ⟨transpile, answered, answer⟩ := hf
      exact ⟨transpile, answered,
        .told answer (Past.saw_cons.mpr (.inl ⟨r, mem, rfl, _, rfl, waits⟩))⟩
  | buildDue waits =>
      rw [waits] at hf
      exact hf
  | ends | cancels => trivial

/-- What is known of a past stays known after one more move. -/
theorem next (h : Chronicle environment past p.core)
    (turn : p.core.Turn move d) : Chronicle environment ((p, move) :: past) d where
  given := turn.same.1.trans h.given
  script := turn.same.2.trans h.script
  sound := h.sound.turn turn
  numbered := h.numbered.turn h.sound turn
  founded s hs := by
    rcases turn.continues h.sound hs with ⟨r, hr, hg, ho, hsame | hadvance⟩ | ⟨_, hs⟩
    · rw [hsame, ← hg, ← ho]
      exact (h.founded r hr).cons _
    · rw [← hg, ← ho]
      exact h.founded_of_advance hr hadvance
    · rw [hs]
      trivial
  generation_le step hstep := by
    rcases List.mem_cons.mp hstep with rfl | hstep
    · exact turn.grows.1
    · exact Nat.le_trans (h.generation_le step hstep) turn.grows.1
  asked := by
    refine h.asked.next h.sound turn (fun {a r} hr he s hs hg => ?_)
      (fun hm _ => hm) (fun hm he => hm.symm.trans he) (fun he he' => he.symm.trans he')
    rcases turn.continues h.sound hs with ⟨t, ht, hgt, ho, _⟩ | ⟨hlt, _⟩
    · rw [← ho, h.sound.eq_of_generation ht hr (hgt.trans hg)]
      exact he
    · exact absurd (hg ▸ h.sound.le r hr) (Nat.not_le_of_lt hlt)
  told := by
    refine h.told.next h.sound turn (fun {a r} hr he s hs hg => ?_)
      (fun hm hadvance => hadvance.isAnswered hm) (fun hm he => ?_) (fun he he' => ?_)
    · obtain ⟨call, rfl, hw⟩ := he
      obtain rfl := h.numbered.answer turn hr hw
      rw [Core.stage_of_mem_setStage hs hg]
      rfl
    · obtain ⟨_, _, rfl⟩ := he
      cases hm
    · obtain ⟨_, rfl, _⟩ := he
      obtain ⟨_, h', _⟩ := he'
      cases h'
      rfl
  handed := by
    refine h.handed.next h.sound turn (fun {a r} hr he s hs hg => ?_)
      (fun hm hadvance => hadvance.isBuilt hm) (fun hm he => ?_)
      (fun he he' => ?_)
    · obtain ⟨call, rfl, hw⟩ := he
      obtain rfl := h.numbered.build h.sound turn hr hw
      rw [Core.stage_of_mem_setStage hs hg]
      rfl
    · obtain ⟨_, _, rfl⟩ := he
      cases hm
    · obtain ⟨_, hm, hs⟩ := he
      obtain ⟨_, hm', hs'⟩ := he'
      exact Prod.ext (Stage.bundling.inj (hs.symm.trans hs')).1
        (Action.answerEngine.inj (Move.act.inj (hm.symm.trans hm'))).2

/-- The compiler answers to a run once. -/
theorem answered_unique (h : Chronicle environment past c) {g : Nat}
    {options : CompileOptions} {a b : CompilerReply}
    (ha : past.Answered environment g options a)
    (hb : past.Answered environment g options b) : a = b := by
  have same {compiler compiler' : CompileOptions → Answer CompilerReply}
      {x y : Answer CompilerReply} (given : environment.compiler = some compiler)
      (given' : environment.compiler = some compiler')
      (hx : compiler options = x) (hy : compiler' options = y) : x = y := by
    rw [given] at given'
    cases given'
    exact hx.symm.trans hy
  cases ha with
  | atOnce given answer =>
      cases hb with
      | atOnce given' answer' =>
          exact Answer.atOnce.inj (same given given' answer answer')
      | after given' answer' | told given' answer' =>
          cases same given given' answer answer'
  | after given answer =>
      cases hb with
      | after given' answer' =>
          exact (Answer.after.inj (same given given' answer answer')).2
      | atOnce given' answer' | told given' answer' =>
          cases same given given' answer answer'
  | told given answer told =>
      cases hb with
      | told _ _ told' => exact h.told.unique told told'
      | atOnce given' answer' | after given' answer' =>
          cases same given given' answer answer'

/-- The engine answers to a run once. -/
theorem built_unique (h : Chronicle environment past c) {g : Nat}
    {result : CompileResult} {a b : EngineRun}
    (ha : past.Built environment g result a)
    (hb : past.Built environment g result b) : a = b := by
  cases ha with
  | atOnce answer =>
      cases hb with
      | atOnce answer' => exact Answer.atOnce.inj (answer.symm.trans answer')
      | after answer' | told answer' => cases answer.symm.trans answer'
  | after answer =>
      cases hb with
      | after answer' => exact (Answer.after.inj (answer.symm.trans answer')).2
      | atOnce answer' | told answer' => cases answer.symm.trans answer'
  | told answer told =>
      cases hb with
      | told _ told' =>
          exact (Prod.mk.inj (h.handed.unique (a := (result, a)) (b := (result, b))
            told told')).2
      | atOnce answer' | after answer' => cases answer.symm.trans answer'

end Chronicle

namespace Pipeline

variable {environment : Environment} {window : Int} {fragment : Text}
  {p : Pipeline}

theorem chronicle_new (h : new environment window fragment = .ok p) :
    Chronicle environment [] p.core := by
  obtain ⟨_, _, rfl⟩ := new_eq_ok h
  exact .nil rfl rfl rfl rfl rfl

/-- Of every course of a new pipeline the chronicle is known. -/
theorem chronicle_follow (h : new environment window fragment = .ok p)
    (moves : List Move) :
    Chronicle environment (p.past moves) (p.follow moves).core := by
  induction moves with
  | nil => exact chronicle_new h
  | cons move before ih => exact ih.next (core_turn _ move ih.script)

end Pipeline

end Playground
