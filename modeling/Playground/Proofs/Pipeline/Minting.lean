import Mathlib.Data.List.Destutter
import Playground.Proofs.Pipeline.Requests

/-!
# Which runs are started

The control loop works off the triggers in the order in which they were asked for, and
starts a run for each that asks the compiler something else than the latest run did. The
latest run is forgotten when it fails, and only then the same may be asked twice in a
row. So when no run fails, what the runs ask is what the triggers ask, without those that
ask the same as the one before.
-/

namespace Playground

/-- A list in which no element is followed by an equal one, when an element is added to what it
is made of. -/
theorem destutter'_concat {α : Type} [DecidableEq α] (a b : α) (l : List α) :
    (l ++ [a]).destutter' (· ≠ ·) b =
      if (b :: l).getLast? = some a then l.destutter' (· ≠ ·) b
      else l.destutter' (· ≠ ·) b ++ [a] := by
  induction l generalizing b with
  | nil =>
      by_cases h : b = a
      · simp [h]
      · simp [h]
  | cons c rest ih =>
      rw [List.cons_append, List.destutter'_cons, List.destutter'_cons, List.getLast?_cons_cons]
      by_cases h : b = c
      · subst h
        rw [if_neg (not_not_intro rfl), if_neg (not_not_intro rfl)]
        exact ih b
      · rw [if_pos h, if_pos h, ih c]
        split <;> rfl

theorem destutter_concat {α : Type} [DecidableEq α] (a : α) (l : List α) :
    (l ++ [a]).destutter (· ≠ ·) =
      if l.getLast? = some a then l.destutter (· ≠ ·) else l.destutter (· ≠ ·) ++ [a] := by
  cases l with
  | nil => rfl
  | cons b rest => exact destutter'_concat a b rest

/-- What triggers ask the compiler. Without a compiler nobody is asked. -/
def Environment.asks (environment : Environment) (triggers : List Trigger) : List CompileOptions :=
  match environment.compiler with
  | none => []
  | some _ => triggers.map fun t => .ofSession environment.rootDir t.session t.source

/-- What a run asked that failed is forgotten, as long as it is the latest. -/
theorem Core.Fails.latest_eq_none {c d : Core} {options : CompileOptions}
    (fails : c.Fails d options) : d.latest = none := by
  obtain ⟨r, -, current, -, _, _, -, -, rfl⟩ := fails
  obtain ⟨_, called⟩ := called_frame c r
  rw [called]
  exact if_pos current

/-- The run of a generation failed while it was the latest: in some step it took the reply of
the compiler, which was a failure. -/
def Past.Fails (past : Past) (generation : Nat) (options : CompileOptions) : Prop :=
  ∃ step ∈ past, step.1.generation = generation ∧
    step.1.core.Fails (step.1.after step.2).core options

/-- No run failed while it was the latest. -/
def Past.NoneFails (past : Past) : Prop :=
  ∀ generation options, ¬past.Fails generation options

theorem Past.Fails.cons {past : Past} {g : Nat} {o : CompileOptions} (h : past.Fails g o)
    (step : Pipeline × Move) : Past.Fails (step :: past) g o := by
  obtain ⟨s, hs, rest⟩ := h
  exact ⟨s, List.mem_cons_of_mem _ hs, rest⟩

/-- What the runs ask that a move has started. -/
def Core.started (c d : Core) : List CompileOptions :=
  (d.runs.filter fun r => c.generation < r.generation).map Run.options

theorem Core.started_append {c d : Core} (sound : c.Sound) {more : List Run}
    (runs : d.runs = c.runs ++ more) (new : ∀ r ∈ more, c.generation < r.generation) :
    c.started d = more.map Run.options := by
  have old : c.runs.filter (fun r => c.generation < r.generation) = [] := by
    refine List.filter_eq_nil_iff.mpr fun r hr => ?_
    simpa using sound.le r hr
  have all : more.filter (fun r => c.generation < r.generation) = more :=
    List.filter_eq_self.mpr fun r hr => by simpa using new r hr
  rw [Core.started, runs, List.filter_append, old, all, List.nil_append]

theorem Core.started_eq_nil {c d : Core} (sound : d.Sound) (same : d.generation = c.generation) :
    c.started d = [] := by
  refine List.map_eq_nil_iff.mpr (List.filter_eq_nil_iff.mpr fun r hr => ?_)
  simpa [← same] using sound.le r hr

/-! ## Starting runs -/

/-- What the runs so far have asked, when the triggers of a list have been worked off. -/
structure Minting (past : Past) (minted : List CompileOptions) (worked : List Trigger)
    (c : Core) : Prop where
  length : minted.length = c.generation
  options : ∀ r ∈ c.runs, ∃ g, r.generation = g + 1 ∧ minted[g]? = some r.options
  idle : c.environment.compiler = none → minted = []
  kept : ∀ o, c.latest = some o → minted.getLast? = some o
  forgotten : c.latest = none → ∀ o, minted.getLast? = some o → past.Fails c.generation o
  repeats : ∀ g o, minted[g]? = some o → minted[g + 1]? = some o → past.Fails (g + 1) o
  renews : past.NoneFails →
    minted = (c.environment.asks worked).destutter (· ≠ ·) ∧
      c.latest = (c.environment.asks worked).getLast?

namespace Minting

variable {past : Past} {minted : List CompileOptions} {worked : List Trigger} {c d : Core}
  {p q : Pipeline} {move : Move}

theorem cons (m : Minting past minted worked c) (step : Pipeline × Move) :
    Minting (step :: past) minted worked c where
  length := m.length
  options := m.options
  idle := m.idle
  kept := m.kept
  forgotten none o last := (m.forgotten none o last).cons step
  repeats g o h h' := (m.repeats g o h h').cons step
  renews never := m.renews fun g o fails => never g o (fails.cons step)

theorem getLast?_eq (m : Minting past minted worked c) {g : Nat} {o : CompileOptions}
    (h : minted[g]? = some o) (last : g + 1 = c.generation) : minted.getLast? = some o := by
  have hl : minted.length - 1 = g := by
    have := m.length
    omega
  rw [List.getLast?_eq_getElem?, hl]
  exact h

/-- A trigger that asks the compiler something else than the latest run starts a run. -/
theorem mint (m : Minting past minted worked c) {trigger : Trigger}
    (compiler : c.environment.compiler ≠ none) (new : c.latest ≠ some (c.optionsFor trigger)) :
    Minting past (minted ++ [c.optionsFor trigger]) (worked ++ [trigger])
      (c.mint (c.optionsFor trigger)) := by
  have asks : c.environment.asks (worked ++ [trigger]) =
      c.environment.asks worked ++ [c.optionsFor trigger] := by
    unfold Environment.asks
    cases h : c.environment.compiler with
    | none => exact absurd h compiler
    | some _ => simp [Core.optionsFor]
  refine ⟨?_, ?_, fun none => absurd none compiler, ?_, fun none => (by cases none), ?_, ?_⟩
  · rw [List.length_append, m.length]
    rfl
  · intro r hr
    rcases List.mem_append.mp hr with hr | hr
    · obtain ⟨g, hg, ho⟩ := m.options r hr
      refine ⟨g, hg, ?_⟩
      rw [List.getElem?_append_left (List.getElem?_eq_some_iff.mp ho).1]
      exact ho
    · rw [List.mem_singleton.mp hr]
      refine ⟨c.generation, rfl, ?_⟩
      rw [← m.length, List.getElem?_concat_length]
  · rintro o ⟨⟩
    exact List.getLast?_concat
  · intro g o h h'
    by_cases inside : g + 1 < minted.length
    · rw [List.getElem?_append_left inside] at h'
      rw [List.getElem?_append_left (Nat.lt_of_succ_lt inside)] at h
      exact m.repeats g o h h'
    · -- The new run is the one that repeats what the latest asked.
      have here := (List.getElem?_eq_some_iff.mp h').1
      rw [List.length_append, List.length_singleton] at here
      have last : g + 1 = minted.length := by omega
      have same : c.optionsFor trigger = o := by
        rw [last, List.getElem?_concat_length] at h'
        exact Option.some.inj h'
      rw [List.getElem?_append_left (by omega)] at h
      have before := m.getLast?_eq h (last.trans m.length)
      rw [last, m.length]
      cases latest : c.latest with
      | none => exact m.forgotten latest o before
      | some o' =>
          have kept := (m.kept o' latest).symm.trans before
          rw [same, latest, Option.some.inj kept] at new
          exact absurd rfl new
  · intro never
    obtain ⟨hm, hl⟩ := m.renews never
    show _ = List.destutter (· ≠ ·) (c.environment.asks (worked ++ [trigger])) ∧
      _ = (c.environment.asks (worked ++ [trigger])).getLast?
    rw [asks, destutter_concat, ← hl, if_neg new, ← hm]
    exact ⟨rfl, List.getLast?_concat.symm⟩

/-- A trigger that asks what the latest run asked is worked off without a run. -/
theorem skip (m : Minting past minted worked c) {trigger : Trigger}
    (skips : c.environment.compiler = none ∨ c.latest = some (c.optionsFor trigger)) :
    Minting past minted (worked ++ [trigger]) c := by
  refine ⟨m.length, m.options, m.idle, m.kept, m.forgotten, m.repeats, fun never => ?_⟩
  obtain ⟨hm, hl⟩ := m.renews never
  cases compiler : c.environment.compiler with
  | none =>
      have nothing (triggers : List Trigger) : c.environment.asks triggers = [] := by
        unfold Environment.asks
        rw [compiler]
      rw [nothing] at hm hl ⊢
      exact ⟨hm, hl⟩
  | some _ =>
      have latest := skips.resolve_left (by rw [compiler]; simp)
      have asks : c.environment.asks (worked ++ [trigger]) =
          c.environment.asks worked ++ [c.optionsFor trigger] := by
        unfold Environment.asks
        rw [compiler]
        simp [Core.optionsFor]
      rw [asks, destutter_concat, ← hl, if_pos latest, List.getLast?_concat]
      exact ⟨hm, latest⟩

/-- The control loop works off the queue: it adds runs, and goes on minting. -/
theorem foldl_dispatch (m : Minting past minted worked c) (queue : List Trigger) :
    ∃ more, (queue.foldl Core.dispatch c).runs = c.runs ++ more ∧
      (∀ r ∈ more, c.generation < r.generation) ∧
      Minting past (minted ++ more.map Run.options) (worked ++ queue)
        (queue.foldl Core.dispatch c) := by
  induction queue generalizing c minted worked with
  | nil =>
      refine ⟨[], (List.append_nil _).symm, by simp, ?_⟩
      rw [List.map_nil, List.append_nil, List.append_nil]
      exact m
  | cons trigger rest ih =>
      have next : (worked ++ trigger :: rest) = worked ++ [trigger] ++ rest := by simp
      rw [List.foldl_cons, next]
      by_cases skips : c.environment.compiler = none ∨ c.latest = some (c.optionsFor trigger)
      · have same : c.dispatch trigger = c := by
          rw [Core.dispatch, if_pos (by simpa using skips)]
        rw [same]
        exact ih (m.skip skips)
      · have mints : c.dispatch trigger = c.mint (c.optionsFor trigger) := by
          rw [Core.dispatch, if_neg (by simpa using skips)]
        rw [not_or] at skips
        obtain ⟨more, runs, new, minting⟩ := ih (m.mint skips.1 skips.2)
        rw [mints]
        refine ⟨{ generation := c.generation + 1, options := c.optionsFor trigger } :: more,
          ?_, ?_, ?_⟩
        · rw [runs]
          exact List.append_assoc _ _ _
        · exact List.forall_mem_cons.mpr
            ⟨Nat.lt_succ_self _, fun r hr => Nat.lt_of_succ_lt (new r hr)⟩
        · rw [List.append_assoc] at minting
          exact minting

/-- A move that starts no run leaves it at what was asked. Only when the latest run fails it
is forgotten. -/
theorem keep (m : Minting past minted worked p.core) (sound : p.core.Sound)
    (turn : p.core.Turn move q.core) (after : p.after move = q)
    (generation : q.core.generation = p.core.generation)
    (latest : q.core.latest = p.core.latest ∨
      q.core.latest = none ∧ ∃ o, p.core.Fails q.core o) :
    Minting ((p, move) :: past) minted worked q.core := by
  have environment := turn.same.1
  have c := m.cons (p, move)
  have fails {o : CompileOptions} (h : p.core.Fails q.core o) :
      Past.Fails ((p, move) :: past) p.core.generation o :=
    ⟨(p, move), List.mem_cons_self, rfl, after ▸ h⟩
  refine ⟨m.length.trans generation.symm, fun s hs => ?_, fun none => ?_, fun o ho => ?_,
    fun none o last => ?_, c.repeats, fun never => ?_⟩
  · rcases turn.continues sound hs with ⟨r, hr, hg, ho, -⟩ | ⟨new, -⟩
    · obtain ⟨g, hgr, hm⟩ := m.options r hr
      exact ⟨g, hg.symm.trans hgr, ho ▸ hm⟩
    · have le := (sound.turn turn).le s hs
      omega
  · exact m.idle (environment ▸ none)
  · rcases latest with same | ⟨gone, -⟩
    · exact m.kept o (same ▸ ho)
    · rw [gone] at ho
      cases ho
  · rw [generation]
    rcases latest with same | ⟨-, o', failed⟩
    · exact c.forgotten (same ▸ none) o last
    · obtain ⟨r, hr, current, ho, -⟩ := id failed
      obtain ⟨g, hg, hm⟩ := m.options r hr
      have before := m.getLast?_eq hm (hg.symm.trans current)
      rw [last] at before
      have same : o = o' := (Option.some.inj before).trans ho
      exact same ▸ fails failed
  · rw [environment]
    rcases latest with same | ⟨-, o, failed⟩
    · rw [same]
      exact c.renews never
    · exact absurd (fails failed) (never _ _)

/-- The control loop works off the queue. -/
theorem consume (m : Minting past minted worked p.core) (sound : p.core.Sound) {rest : List Job}
    (consumes : q.core = { p.core.queue.foldl Core.dispatch { p.core with
      queue := [], jobs := rest } with loop := .waiting }) :
    q.core.queue = [] ∧
      Minting ((p, move) :: past) (minted ++ p.core.started q.core) (worked ++ p.queue) q.core := by
  have e : Minting past minted worked { p.core with queue := [], jobs := rest } :=
    ⟨m.length, m.options, m.idle, m.kept, m.forgotten, m.repeats, m.renews⟩
  obtain ⟨more, runs, new, minting⟩ := e.foldl_dispatch p.core.queue
  have started : p.core.started q.core = more.map Run.options :=
    Core.started_append sound (by rw [consumes]; exact runs) new
  constructor
  · obtain ⟨_, _, _, frame⟩ := Core.foldl_dispatch_frame p.core.queue
      { p.core with queue := [], jobs := rest }
    rw [consumes, frame]
  · rw [started, consumes]
    have c := minting.cons (p, move)
    exact ⟨c.length, c.options, c.idle, c.kept, c.forgotten, c.repeats, c.renews⟩

end Minting

namespace Pipeline

variable {p q : Pipeline} {move : Move} {moves : List Move}

/-! ## Courses -/

variable {environment : Environment} {window : Int} {fragment : Text}

/-- What the runs ask that a move has started. -/
def started (p q : Pipeline) : List CompileOptions :=
  (q.runs.filter fun r => p.generation < r.generation).map Run.options

/-- What the runs have asked that were started in a course, in order. -/
def minted (p : Pipeline) : List Move → List CompileOptions
  | [] => []
  | move :: before => p.minted before ++ (p.follow before).started ((p.follow before).after move)

theorem started_core (p q : Pipeline) : p.core.started q.core = p.started q := by
  show ((q.runs.map Run.forCaller).filter fun r => p.generation < r.generation).map Run.options = _
  rw [List.filter_map, List.map_map]
  rfl

/-- What was asked for is worked off, up to what is in the queue, and the runs ask what
has been worked off. -/
theorem minting_follow (h : new environment window fragment = .ok p) (hm : .halt ∉ moves) :
    ∃ worked, p.requested moves = worked ++ (p.follow moves).queue ∧
      Minting (p.past moves) (p.minted moves) worked (p.follow moves).core := by
  induction moves with
  | nil =>
      obtain ⟨_, _, rfl⟩ := new_eq_ok h
      have asks : environment.asks [] = [] := by
        unfold Environment.asks
        cases environment.compiler <;> rfl
      refine ⟨[], rfl, ⟨rfl, ?_, fun _ => rfl, nofun, ?_, ?_, fun _ => ?_⟩⟩
      · exact fun r hr => by cases hr
      · exact fun _ o last => by cases last
      · exact fun g o at_g => by cases at_g
      · show [] = List.destutter (· ≠ ·) (environment.asks []) ∧
          none = (environment.asks []).getLast?
        rw [asks]
        exact ⟨rfl, rfl⟩
  | cons move before ih =>
      obtain ⟨worked, requested, minting⟩ := ih (List.not_mem_of_not_mem_cons hm)
      have hh : move ≠ .halt := (List.ne_of_not_mem_cons hm).symm
      have chronicle := chronicle_follow h before
      have turn := core_turn (p.follow before) move chronicle.script
      rcases turn.consumes_or_keeps with ⟨rfl, rest, consumes⟩ | ⟨generation, latest, -, same⟩
      · obtain ⟨queue, minting⟩ := minting.consume chronicle.sound consumes
        refine ⟨worked ++ (p.follow before).queue, ?_, ?_⟩
        · have none : (p.follow (.job :: before)).queue = [] := queue
          rw [none, Pipeline.requested, requested]
          rfl
        · rw [minted, ← started_core]
          exact minting
      · have queue : ((p.follow before).after move).queue =
            (p.follow before).queue ++ (p.follow before).requests move := by
          by_cases hj : move = .job
          · subst hj
            exact (same rfl).trans (List.append_nil _).symm
          · exact queue_after hj hh
        refine ⟨worked, ?_, ?_⟩
        · rw [Pipeline.requested, requested, follow, queue, List.append_assoc]
        · have none := Core.started_eq_nil (chronicle.sound.turn turn) generation
          rw [minted, ← started_core, none, List.append_nil]
          exact minting.keep chronicle.sound turn rfl generation latest

end Pipeline

end Playground
