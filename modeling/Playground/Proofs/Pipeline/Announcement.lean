import Playground.Proofs.Pipeline.Outside
import Playground.Proofs.Pipeline.Publication

/-!
# Who is told of a publication

To publish is more than one effect: the output is replaced, the markers are
shown, and those who subscribe are told. The editor stands in the middle, and it
is the one collaborator that can break. Unless it does, a publication is told to
all who can take it, and to publish is the only occasion when anybody is told
anything. When it does break, the output has been replaced but nobody hears of
it, and the run ends in a crash; there is no other way for a run to crash.
-/

namespace Playground

namespace Core

variable {c d : Core} {move : Move} {g : Nat} {failure : Failure}

/-- The run of a generation has crashed. -/
def Crashed (c : Core) (g : Nat) (failure : Failure) : Prop :=
  ∃ r ∈ c.runs, r.generation = g ∧ r.stage = .finished (some failure)

theorem Crashed.of_setStage {generation : Nat} {stage : Stage}
    (h : (c.setStage generation stage).Crashed g failure)
    (other : generation = g → stage ≠ .finished (some failure)) : c.Crashed g failure := by
  obtain ⟨s, hs, hg, crash⟩ := h
  obtain ⟨r, hr, rfl⟩ := List.mem_map.mp hs
  split at hg
  · next he =>
      rw [if_pos he] at crash
      exact absurd crash (other (he.symm.trans hg))
  · next hne =>
      rw [if_neg hne] at crash
      exact ⟨r, hr, hg, crash⟩

/-- A run can only crash when it publishes. -/
theorem Turn.crashed (sound : c.Sound) (turn : c.Turn move d) (h : d.Crashed g failure) :
    c.Crashed g failure ∨ d.output.generation = g ∧ c.output.generation ≠ g := by
  cases turn with
  | still | edits | views | loopEnds | loopSleeps => exact .inl h
  | chooses | loads | fires | starts =>
      obtain ⟨_, _, _, ht⟩ := trigger_frame _
      rw [ht] at h
      exact .inl h
  | answers | builds | answerDue | buildDue => exact .inl (h.of_setStage (by simp))
  | halts =>
      obtain ⟨_, _, _, _, _, hb⟩ := beginHalt_frame c
      rw [hb] at h
      obtain ⟨s, hs, hg, crash⟩ := h
      obtain ⟨t, ht, rfl⟩ := List.mem_map.mp hs
      obtain ⟨r, hr, rfl⟩ := List.mem_map.mp ht
      left
      simp only at hg crash
      split at hg
      · next he =>
          rw [if_pos he] at crash
          cases crash
      · next hne =>
          rw [if_neg hne] at crash
          exact ⟨r, hr, hg, crash⟩
  | @consumes rest =>
      obtain ⟨s, hs, hg, crash⟩ := h
      rcases mem_foldl_dispatch_runs hs with old | ⟨_, created⟩
      · exact .inl ⟨s, old, hg, crash⟩
      · rw [created] at crash
        cases crash
  | @serves r _ mem served =>
      obtain ⟨_, hc⟩ := called_frame c r
      cases served with
      | waits | fails | superseded | bundles =>
          rw [hc] at h
          exact .inl (Crashed.of_setStage (c := c) h (by simp))
      | quits => exact .inl (Crashed.of_setStage (c := c) h (by simp))
      | publishes yields =>
          rw [hc] at h
          by_cases hg : r.generation = g
          · exact .inr ⟨hg, fun he => sound.unpublished r mem yields.isOver (hg.trans he.symm)⟩
          · exact .inl (Crashed.of_setStage (c := c) h fun he => absurd he hg)
  | reaps =>
      obtain ⟨r, hr, rest⟩ := h
      exact .inl ⟨r, (List.mem_filter.mp hr).1, rest⟩
  | notices =>
      obtain ⟨_, _, _, hn⟩ := notice_frame _
      rw [hn] at h
      exact .inl h
  | resumes =>
      obtain ⟨_, _, _, _, hr⟩ := resume_frame _
      rw [hr] at h
      exact .inl h

end Core

namespace Pipeline

variable {environment : Environment} {window : Int} {fragment : Text} {p q : Pipeline}

/-- What a subscription holds. -/
def unread (p : Pipeline) (i : Nat) : List Nat :=
  (p.subscriptions[i]?.map Subscription.unread).getD []

/-- The output, and all who are told when it is replaced. -/
def told (p : Pipeline) : Output × List Subscription :=
  (p.output, p.subscriptions)

theorem told_of_outside (h : q.outside = p.outside) : q.told = p.told := by
  have same := congrArg told h
  exact same

/-! ## Publications -/

/-- A run ends with its stage, and stays on the list. -/
theorem exists_finished {run : Run} (mem : run ∈ p.runs) (crash : Option Failure) :
    ∃ s ∈ (p.finish run crash).runs, s.generation = run.generation ∧
      s.stage = .finished crash :=
  ⟨_, List.mem_map_of_mem mem, by rw [if_pos rfl], by rw [if_pos rfl]⟩

/-- All are told of a publication, unless the editor breaks, and then nobody is. -/
theorem Publishes.announces (h : p.Publishes q) :
    ∃ run ∈ p.runs, run.stage.isOver = false ∧ q.output.generation = run.generation ∧
      if p.breaks then
        q.subscriptions = p.subscriptions ∧
          ∃ s ∈ q.runs, s.generation = run.generation ∧
            s.stage = .finished (some (.broke Editor.complaint))
      else
        q.subscriptions = (p.notify run.generation).subscriptions ∧
          ∃ s ∈ q.runs, s.generation = run.generation ∧ s.stage = .finished none := by
  cases h with
  | @intro base run result bundles outside runs mem isOpen =>
      have mem' : run ∈ base.runs := runs ▸ mem
      have breaks := congrArg Pipeline.breaks outside
      change base.breaks = p.breaks at breaks
      have told : base.subscriptions = p.subscriptions :=
        congrArg Prod.snd (told_of_outside outside)
      obtain ⟨_, frame⟩ := publish_frame base run result bundles
      rw [frame, ← breaks]
      refine ⟨run, mem, isOpen, rfl, ?_⟩
      by_cases broken : base.breaks = true
      · rw [if_pos broken, if_pos broken, if_pos broken, if_pos broken]
        exact ⟨told, exists_finished (by exact mem') _⟩
      · rw [if_neg broken, if_neg broken, if_neg broken, if_neg broken]
        refine ⟨?_, exists_finished (by exact mem') _⟩
        show (base.notify run.generation).subscriptions = _
        rw [notify, notify, told]

/-! ## Other moves -/

theorem told_edit (p : Pipeline) (source : Text) : (p.edit source).1.told = p.told := by
  rcases p.edit_cases source with h | ⟨-, -, h⟩ <;> rw [h]
  rfl

theorem told_typeInto (p : Pipeline) (i : Nat) (source : Text) :
    (p.typeInto i source).1.told = p.told :=
  typeInto_rec (motive := fun q : Pipeline => q.told = p.told) p i source (fun _ => rfl)
    fun q hq => (told_edit q source).trans hq

theorem told_setOptions (p : Pipeline) (minify strategy : Option Json)
    (transpile : Option Bool) : (p.setOptions minify strategy transpile).1.told = p.told := by
  rcases p.setOptions_cases minify strategy transpile with h | ⟨_, -, -, -, h⟩ <;> rw [h]
  exact (told_of_outside (outside_trigger _)).trans rfl

theorem told_setView (p : Pipeline) (given : Json) : (p.setView given).1.told = p.told := by
  rcases p.setView_cases given with h | ⟨_, -, -, h⟩ <;> rw [h]
  rfl

theorem told_load (p : Pipeline) (text : Text) : (p.load text).1.told = p.told := by
  rcases p.load_cases text with ⟨-, h⟩ | ⟨-, h⟩ <;> rw [h]
  exact (told_of_outside (outside_trigger _)).trans rfl

/-- Users replace no output, and what a subscription holds can only be taken from it. -/
theorem unread_act (p : Pipeline) (action : Action) :
    (p.act action).1.output = p.output ∧
      ∀ i, (p.act action).1.unread i = p.unread i ∨ (p.act action).1.unread i = [] := by
  have same (h : (p.act action).1.told = p.told) : (p.act action).1.output = p.output ∧
      ∀ i, (p.act action).1.unread i = p.unread i ∨ (p.act action).1.unread i = [] := by
    have subscriptions := congrArg Prod.snd h
    refine ⟨congrArg Prod.fst h, fun i => .inl ?_⟩
    change (p.act action).1.subscriptions = p.subscriptions at subscriptions
    rw [unread, unread, subscriptions]
  cases action with
  | start =>
      refine same ?_
      show p.start.told = p.told
      rcases p.start_cases with ⟨-, h⟩ | ⟨-, h⟩ <;> rw [h]
      exact (told_of_outside (outside_trigger _)).trans rfl
  | stop | attach | wait | setEncoder => exact same rfl
  | edit source => exact same (told_edit p source)
  | setOptions minify strategy transpile => exact same (told_setOptions p minify strategy transpile)
  | setView view => exact same (told_setView p view)
  | load fragment => exact same (told_load p fragment)
  | reload => exact same (told_load p _)
  | type i source => exact same (told_typeInto p i source)
  | answerCompiler call reply =>
      exact same (told_of_outside (outside_answerCompiler p call reply))
  | answerEngine call engineRun =>
      exact same (told_of_outside (outside_answerEngine p call engineRun))
  | subscribe =>
      refine ⟨rfl, fun i => ?_⟩
      simp only [act, subscribe, unread, List.getElem?_append]
      split
      · exact .inl rfl
      · right
        cases i - p.subscriptions.length <;> simp
  | unsubscribe k =>
      refine ⟨rfl, fun i => .inl ?_⟩
      simp only [act, unsubscribe, unread, List.getElem?_modify]
      cases p.subscriptions[i]? with
      | none => simp
      | some s => by_cases h : k = i <;> simp [h]
  | read k =>
      refine ⟨rfl, fun i => ?_⟩
      simp only [act, read, unread, List.getElem?_modify]
      cases p.subscriptions[i]? with
      | none => simp
      | some s => by_cases h : k = i <;> simp [h]

theorem told_editDue (h : p.editDue? = some q) : q.told = p.told := by
  obtain ⟨⟨source, debouncer⟩, _, rfl⟩ := Option.map_eq_some_iff.mp h
  have settles := told_of_outside (outside_trigger { p with debouncer, settled := source })
  exact settles

/-- A move publishes, or it replaces no output and tells nobody anything. -/
theorem publishes_or_quiet (h : p.script = []) (move : Move) :
    p.Publishes (p.after move) ∨ (p.after move).output = p.output ∧
      ∀ i, (p.after move).unread i = p.unread i ∨ (p.after move).unread i = [] := by
  have same {q : Pipeline} (h : q.told = p.told) : q.output = p.output ∧
      ∀ i, q.unread i = p.unread i ∨ q.unread i = [] := by
    have subscriptions := congrArg Prod.snd h
    refine ⟨congrArg Prod.fst h, fun i => .inl ?_⟩
    change q.subscriptions = p.subscriptions at subscriptions
    rw [unread, unread, subscriptions]
  cases move with
  | act action => exact .inr (unread_act p action)
  | halt =>
      refine .inr (same ?_)
      simp only [after]
      split
      · have halts := told_of_outside (outside_beginHalt p)
        simp only [proceed]
        split <;> exact halts
      · rfl
  | job =>
      simp only [after]
      split
      · exact .inr (same rfl)
      · next job jobs _ =>
          rcases publishes_or_outside_serve (p := { p with jobs }) h job with publishes | quiet
          · exact .inl (publishes.of_base rfl rfl)
          · have told := told_of_outside quiet
            exact .inr (same told)
  | editDue =>
      refine .inr (same ?_)
      simp only [after]
      cases due : p.editDue? with
      | none => rfl
      | some q => exact told_editDue due
  | answerDue =>
      refine .inr (same ?_)
      simp only [after]
      cases due : p.answerDue? with
      | none => rfl
      | some q => exact told_of_outside (outside_answerDue due)
  | clock => exact .inr (same rfl)

theorem crashed_core {g : Nat} {failure : Failure} :
    p.core.Crashed g failure ↔
      ∃ run ∈ p.runs, run.generation = g ∧ run.stage = .finished (some failure) := by
  constructor
  · rintro ⟨r, hr, hg, crash⟩
    obtain ⟨run, mem, hgen, -, hstage⟩ := exists_of_mem_core_runs hr
    exact ⟨run, mem, hgen.trans hg, hstage.trans crash⟩
  · rintro ⟨run, mem, hg, crash⟩
    exact ⟨run.forCaller, mem_core_runs mem, hg, crash⟩

/-- A move that replaces the output by another of generation `g` tells `g` to
everyone who subscribes and does not hold too much already, and the run of `g` ends
well, if the editor that is mounted does not break. If it breaks, nobody is told
anything and the run crashes. A move that does not replace the output tells nobody
anything. And no run crashes other than by an editor that breaks. -/
theorem announces_publications (h : new environment window fragment = .ok p)
    (moves : List Move) (move : Move) :
    let before := p.follow moves
    let after := p.follow (move :: moves)
    let g := after.output.generation
    (after.output = before.output →
      ∀ i, after.unread i = before.unread i ∨ after.unread i = []) ∧
    (after.output ≠ before.output → before.output.generation < g ∧
      if before.breaks then
        after.subscriptions = before.subscriptions ∧
          ∃ run ∈ after.runs, run.generation = g ∧
            run.stage = .finished (some (.broke Editor.complaint))
      else
        (∀ i : Nat, after.subscriptions[i]? = before.subscriptions[i]?.map fun s =>
          if s.isActive = true ∧ s.unread.length < 100 then
            { s with unread := s.unread ++ [g] }
          else s) ∧
          ∃ run ∈ after.runs, run.generation = g ∧ run.stage = .finished none) ∧
    ∀ run ∈ after.runs, ∀ failure, run.stage = .finished (some failure) →
      (∃ earlier ∈ before.runs, earlier.generation = run.generation ∧
        earlier.stage = .finished (some failure)) ∨
      after.output ≠ before.output ∧ before.breaks = true ∧ run.generation = g := by
  intro before after g
  have chronicle := chronicle_follow h moves
  have chronicle' := chronicle_follow h (move :: moves)
  have turn : before.core.Turn move after.core := core_turn before move chronicle.script
  have newer (hne : after.output ≠ before.output) :
      before.output.generation < after.output.generation := (chronicle.publishes turn hne).1
  rcases publishes_or_quiet chronicle.script move with publishes | ⟨output, unread⟩
  · obtain ⟨run, mem, isOpen, hg, announces⟩ := publishes.announces
    change after.output.generation = run.generation at hg
    have replaced : after.output ≠ before.output := by
      intro he
      have unpublished := chronicle.sound.unpublished run.forCaller (mem_core_runs mem) isOpen
      change run.generation ≠ before.output.generation at unpublished
      rw [← he, hg] at unpublished
      exact unpublished rfl
    refine ⟨fun he => absurd he replaced, fun _ => ⟨newer replaced, ?_⟩, ?_⟩
    · by_cases breaks : before.breaks = true
      · rw [if_pos breaks] at announces ⊢
        rw [show g = run.generation from hg]
        exact announces
      · rw [if_neg breaks] at announces ⊢
        rw [show g = run.generation from hg]
        refine ⟨fun i => ?_, announces.2⟩
        rw [show after.subscriptions = _ from announces.1, notify, List.getElem?_map]
        simp only [Bool.and_eq_true, decide_eq_true_eq]
        rfl
    · intro crashed hcrashed failure crash
      by_cases breaks : before.breaks = true
      · rcases turn.crashed chronicle.sound (crashed_core.mpr ⟨crashed, hcrashed, rfl, crash⟩) with
          old | ⟨hout, -⟩
        · exact .inl (crashed_core.mp old)
        · exact .inr ⟨replaced, breaks, hout.symm⟩
      · rw [if_neg breaks] at announces
        obtain ⟨-, s, hs, hgen, well⟩ := announces
        rcases turn.crashed chronicle.sound (crashed_core.mpr ⟨crashed, hcrashed, rfl, crash⟩) with
          old | ⟨hout, -⟩
        · exact .inl (crashed_core.mp old)
        · have same : crashed.forCaller = s.forCaller := by
            refine chronicle'.sound.eq_of_generation (mem_core_runs hcrashed) (mem_core_runs hs) ?_
            exact hout.symm.trans (hg.trans hgen.symm)
          have stage := congrArg Run.stage same
          change crashed.stage = s.stage at stage
          rw [crash, well] at stage
          cases stage
  · refine ⟨fun _ => unread, fun hne => absurd output hne, ?_⟩
    intro crashed hcrashed failure crash
    rcases turn.crashed chronicle.sound (crashed_core.mpr ⟨crashed, hcrashed, rfl, crash⟩) with
      old | ⟨hout, hne⟩
    · exact .inl (crashed_core.mp old)
    · exact absurd ((congrArg Output.generation output).symm.trans hout) hne

theorem announces_publications_after_start : ∃ p, new .prompt 0 [] = .ok p ∧
    (p.follow [.job, .job, .act .start, .act .subscribe]).unread 0 = [1] := by
  have replaced : ({ generation := 1 } : Output) ≠ {} := by decide
  refine ⟨_, rfl, ?_⟩
  have told := (((@announces_publications .prompt 0 [] _ rfl
    [.job, .act .start, .act .subscribe] .job).2.1 replaced).2).1 0
  rw [unread, told]
  rfl

/-- With an editor that breaks, a publication is not told to one who subscribes, and the
run crashes. -/
theorem keeps_silent_when_broken : ∃ p, new .prompt 0 [] = .ok p ∧
    let after := p.follow [.job, .job, .act .start, .act .subscribe, .act (.attach .broken)]
    after.output.generation = 1 ∧ after.subscriptions = [{ isActive := true, unread := [] }] ∧
      after.runs.map Run.stage = [.finished (some (.broke Editor.complaint))] :=
  ⟨_, rfl, rfl, rfl, rfl⟩

end Pipeline

end Playground
