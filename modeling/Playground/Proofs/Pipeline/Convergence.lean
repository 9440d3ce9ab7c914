import Playground.Proofs.Pipeline.Publication

/-!
# No edit is lost

As long as nobody halts the pipeline, whatever was done to the session gets
compiled in the end: once nothing is held back, nothing is queued and no run is
in flight, the latest run was for the session as it is.

The document is in up to three places, the session, the debouncer and the
settled text. When an edit is held back it is the session's document, and
otherwise the settled text is. So it is enough to show that the pipeline heads
for the settled text: the last trigger in the queue asks for it, or, when the
queue is empty, the latest run did. A trigger that is skipped does no harm,
because the options it asks for are those of the latest run.

The latest run has a fate: it is going on, or the compiler failed on it, or it
is what is displayed. It cannot be superseded, and nobody cancels it.
-/

namespace Playground

namespace Core

variable {c d : Core} {r s : Run} {move : Move}

/-! ## Nobody halts the pipeline -/

/-- The pipeline was never halted. -/
structure Unhalted (c : Core) : Prop where
  free : c.halt = none
  loop : c.loop ≠ .cancelled ∧ c.loop ≠ .ended
  runs : ∀ r ∈ c.runs, r.stage ≠ .cancelled

theorem trigger_loop (c : Core) :
    c.trigger.loop = if c.loop = .waiting then .woken else c.loop := by
  simp only [trigger]
  split
  · next h => rw [if_pos h]
  · next h => rw [if_neg h]

theorem notice_eq_self (h : c.halt = none) : c.notice = c := by
  unfold notice
  rw [h]

theorem resume_eq_self (h : c.halt = none) : c.resume = c := by
  unfold resume
  rw [h]

/-- The loop of a pipeline that nobody halts is started once and for all. -/
theorem Unhalted.loop_turn (u : c.Unhalted) (turn : c.Turn move d)
    (hm : move ≠ .halt) :
    d.halt = none ∧ (d.loop ≠ .cancelled ∧ d.loop ≠ .ended) ∧
      (c.loop ≠ .off ∨ move = .act .start → d.loop ≠ .off) := by
  have triggers (e : Core) (halt : e.halt = none)
      (loop : e.loop ≠ .cancelled ∧ e.loop ≠ .ended) :
      e.trigger.halt = none ∧
        (e.trigger.loop ≠ .cancelled ∧ e.trigger.loop ≠ .ended) ∧
        (e.loop ≠ .off → e.trigger.loop ≠ .off) := by
    obtain ⟨_, _, _, ht⟩ := trigger_frame e
    refine ⟨by rw [ht]; exact halt, ?_⟩
    rw [trigger_loop]
    split
    · simp
    · exact ⟨loop, id⟩
  have input (h : move.isInput = true) : move ≠ .act .start := by
    rintro rfl
    cases h
  cases turn with
  | still ignored =>
      refine ⟨u.free, u.loop, ?_⟩
      rintro (h | rfl)
      · exact h
      · exact ignored
  | edits _ _ h => exact ⟨u.free, u.loop, (·.resolve_right (input h))⟩
  | views | answers | builds | answerDue | buildDue | loopSleeps | reaps =>
      exact ⟨u.free, u.loop, (·.resolve_right (by simp))⟩
  | chooses session _ h =>
      obtain ⟨h₁, h₂, h₃⟩ := triggers { c with session } u.free u.loop
      exact ⟨h₁, h₂, fun hs => h₃ (hs.resolve_right (input h))⟩
  | loads session h =>
      obtain ⟨h₁, h₂, h₃⟩ := triggers
        { c with session, settled := session.source, held := none } u.free u.loop
      exact ⟨h₁, h₂, fun hs => h₃ (hs.resolve_right (input h))⟩
  | @fires _ source =>
      obtain ⟨h₁, h₂, h₃⟩ := triggers
        { c with settled := source, held := none } u.free u.loop
      exact ⟨h₁, h₂, fun hs => h₃ (hs.resolve_right (by simp))⟩
  | starts =>
      obtain ⟨h₁, h₂, h₃⟩ := triggers
        { c with loop := .created, jobs := c.jobs ++ [.loop] } u.free (by simp)
      exact ⟨h₁, h₂, fun _ => h₃ (by simp)⟩
  | halts => exact absurd rfl hm
  | consumes =>
      obtain ⟨_, _, _, hq⟩ := foldl_dispatch_frame c.queue _
      rw [hq]
      exact ⟨u.free, by simp, by simp⟩
  | loopEnds cancelled => exact absurd cancelled u.loop.1
  | serves mem served =>
      have hcalled (r : Run) : (c.called r).halt = c.halt ∧
          (c.called r).loop = c.loop := by
        obtain ⟨_, hc⟩ := called_frame c r
        rw [hc]
        exact ⟨rfl, rfl⟩
      have hsame : d.halt = c.halt ∧ d.loop = c.loop := by
        cases served with
        | quits => exact ⟨rfl, rfl⟩
        | _ => exact hcalled _
      rw [hsame.1, hsame.2]
      exact ⟨u.free, u.loop, (·.resolve_right (by simp))⟩
  | @notices rest =>
      rw [notice_eq_self (c := { c with jobs := rest }) u.free]
      exact ⟨u.free, u.loop, (·.resolve_right (by simp))⟩
  | @resumes rest =>
      rw [resume_eq_self (c := { c with jobs := rest }) u.free]
      exact ⟨u.free, u.loop, (·.resolve_right (by simp))⟩

theorem Unhalted.turn (u : c.Unhalted) (h : c.Sound) (turn : c.Turn move d)
    (hm : move ≠ .halt) : d.Unhalted where
  free := (u.loop_turn turn hm).1
  loop := (u.loop_turn turn hm).2.1
  runs s hs hcancelled := by
    rcases turn.continues h hs with ⟨r, hr, _, _, hsame | hadvance⟩ | ⟨_, hcreated⟩
    · exact u.runs r hr (hsame ▸ hcancelled)
    · rw [hcancelled] at hadvance
      cases hadvance
      exact hm rfl
    · rw [hcreated] at hcancelled
      cases hcancelled

/-! ## Where the document is -/

/-- An edit that is held back is the session's document, and when there is none
the settled text is. -/
def Settles (c : Core) : Prop :=
  match c.held with
  | some (_, source) => source = c.session.source
  | none => c.settled = c.session.source

theorem Settles.trigger (h : c.Settles) : c.trigger.Settles := by
  obtain ⟨_, _, _, ht⟩ := trigger_frame c
  rw [ht]
  exact h

theorem Settles.turn (h : c.Settles) (turn : c.Turn move d) (hm : move ≠ .halt) :
    d.Settles := by
  cases turn with
  | still | views | answers | builds | loopEnds | loopSleeps | reaps | answerDue
  | buildDue => exact h
  | edits => rfl
  | chooses session same =>
      refine Settles.trigger ?_
      simp only [Settles, same]
      exact h
  | loads => exact Settles.trigger rfl
  | starts => exact Settles.trigger h
  | fires due =>
      refine Settles.trigger ?_
      unfold Settles at h
      rw [due] at h
      exact h
  | halts => exact absurd rfl hm
  | consumes =>
      obtain ⟨_, _, _, hq⟩ := foldl_dispatch_frame c.queue _
      rw [hq]
      exact h
  | serves mem served =>
      have hcalled (r : Run) : (c.called r).Settles := by
        obtain ⟨_, hc⟩ := called_frame c r
        rw [hc]
        exact h
      cases served with
      | quits => exact h
      | _ => exact hcalled _
  | notices =>
      obtain ⟨_, _, _, hn⟩ := notice_frame _
      rw [hn]
      exact h
  | resumes =>
      obtain ⟨_, _, _, _, hr⟩ := resume_frame _
      rw [hr]
      exact h

/-! ## What the pipeline heads for -/

/-- The options for the settled text. -/
def wanted (c : Core) : CompileOptions :=
  c.optionsFor ⟨c.session, c.settled⟩

/-- The last trigger in the queue asks for the settled text. -/
def Queues (c : Core) : Prop :=
  ∃ trigger, c.queue.getLast? = some trigger ∧ c.optionsFor trigger = c.wanted

theorem queues_trigger (c : Core) : c.trigger.Queues := by
  obtain ⟨_, _, _, ht⟩ := trigger_frame c
  rw [ht]
  exact ⟨_, List.getLast?_concat, rfl⟩

/-- Either the control loop works off the queue, or else the latest run stays
the latest, and the pipeline heads for what it headed for, or for what is newly
queued. -/
theorem Unhalted.heads (u : c.Unhalted) (turn : c.Turn move d) (hm : move ≠ .halt) :
    (∃ rest, (c.loop = .created ∨ c.loop = .woken) ∧
      d = { c.queue.foldl dispatch { c with queue := [], jobs := rest } with
        loop := .waiting }) ∨
    d.generation = c.generation ∧ (d.latest = c.latest ∨ d.latest = none) ∧
      (d.Queues ∨ d.queue = c.queue ∧ d.environment = c.environment ∧
        d.wanted = c.wanted ∧ d.loop = c.loop) := by
  have triggers (e : Core) : e.trigger.generation = e.generation ∧
      e.trigger.latest = e.latest := by
    obtain ⟨_, _, _, ht⟩ := trigger_frame e
    rw [ht]
    exact ⟨rfl, rfl⟩
  cases turn with
  | still | edits | views | answers | builds | loopSleeps | reaps | answerDue
  | buildDue => exact .inr ⟨rfl, .inl rfl, .inr ⟨rfl, rfl, rfl, rfl⟩⟩
  | chooses | loads | starts | fires =>
      exact .inr ⟨(triggers _).1, .inl (triggers _).2, .inl (queues_trigger _)⟩
  | halts => exact absurd rfl hm
  | @consumes rest awake => exact .inl ⟨rest, awake, rfl⟩
  | loopEnds cancelled => exact absurd cancelled u.loop.1
  | serves mem served =>
      refine .inr ?_
      obtain ⟨_, hc⟩ := called_frame c _
      cases served with
      | quits => exact ⟨rfl, .inl rfl, .inr ⟨rfl, rfl, rfl, rfl⟩⟩
      | fails =>
          rw [hc]
          refine ⟨rfl, ?_, .inr ⟨rfl, rfl, rfl, rfl⟩⟩
          show (if _ then none else c.latest) = c.latest ∨ _
          split
          · exact .inr (if_pos ‹_›)
          · exact .inl rfl
      | _ => rw [hc]; exact ⟨rfl, .inl rfl, .inr ⟨rfl, rfl, rfl, rfl⟩⟩
  | @notices rest =>
      rw [notice_eq_self (c := { c with jobs := rest }) u.free]
      exact .inr ⟨rfl, .inl rfl, .inr ⟨rfl, rfl, rfl, rfl⟩⟩
  | @resumes rest =>
      rw [resume_eq_self (c := { c with jobs := rest }) u.free]
      exact .inr ⟨rfl, .inl rfl, .inr ⟨rfl, rfl, rfl, rfl⟩⟩

/-- The latest run takes the reply of the compiler, which is a failure. -/
def Fails (c d : Core) (options : CompileOptions) : Prop :=
  ∃ r ∈ c.runs, r.generation = c.generation ∧ r.options = options ∧ ∃ reply failure,
    c.Takes r reply ∧ reply.result = .error failure ∧ d = (c.called r).fail r.generation

/-- Either the control loop works off the queue, or else the latest run stays the
latest, what it asks for is kept in mind unless it fails, and nothing is taken out
of the queue. -/
theorem Turn.consumes_or_keeps (turn : c.Turn move d) :
    (move = .job ∧ ∃ rest, d = { c.queue.foldl dispatch { c with queue := [], jobs := rest } with
        loop := .waiting }) ∨
      d.generation = c.generation ∧ (d.latest = c.latest ∨ d.latest = none ∧ ∃ o, c.Fails d o) ∧
        c.queue <+: d.queue ∧ (move = .job → d.queue = c.queue) := by
  have same : c.queue <+: c.queue ∧ (move = .job → c.queue = c.queue) :=
    ⟨List.prefix_rfl, fun _ => rfl⟩
  cases turn with
  | still | edits | views | answers | builds | loopEnds | loopSleeps | reaps
  | answerDue | buildDue => exact .inr ⟨rfl, .inl rfl, same⟩
  | chooses _ _ input | loads _ input =>
      obtain ⟨_, _, _, ht⟩ := trigger_frame _
      rw [ht]
      refine .inr ⟨rfl, .inl rfl, List.prefix_append _ _, ?_⟩
      rintro rfl
      cases input
  | starts | fires =>
      obtain ⟨_, _, _, ht⟩ := trigger_frame _
      rw [ht]
      exact .inr ⟨rfl, .inl rfl, List.prefix_append _ _, nofun⟩
  | halts =>
      obtain ⟨_, _, _, _, _, hb⟩ := beginHalt_frame c
      rw [hb]
      exact .inr ⟨rfl, .inl rfl, same⟩
  | @consumes rest => exact .inl ⟨rfl, rest, rfl⟩
  | @serves r _ mem served =>
      obtain ⟨calls, hc⟩ := called_frame c r
      cases served with
      | quits => exact .inr ⟨rfl, .inl rfl, same⟩
      | fails takes failed =>
          have latest : ((c.called r).fail r.generation).latest =
              if r.generation = c.generation then none else c.latest := by
            rw [hc]
            rfl
          by_cases current : r.generation = c.generation
          · rw [if_pos current] at latest
            refine .inr ⟨?_, .inr ⟨latest, r.options, r, mem, current, rfl, _, _, takes, failed, rfl⟩, ?_⟩
            · rw [hc]
              rfl
            · rw [hc]
              exact same
          · rw [if_neg current] at latest
            refine .inr ⟨?_, .inl latest, ?_⟩
            · rw [hc]
              rfl
            · rw [hc]
              exact same
      | _ => rw [hc]; exact .inr ⟨rfl, .inl rfl, same⟩
  | notices =>
      obtain ⟨_, _, _, hn⟩ := notice_frame _
      rw [hn]
      exact .inr ⟨rfl, .inl rfl, same⟩
  | resumes =>
      obtain ⟨_, _, _, _, hr⟩ := resume_frame _
      rw [hr]
      exact .inr ⟨rfl, .inl rfl, same⟩

end Core

/-- The run of a generation asks for these options, or has asked for them. -/
def Past.Asks (past : Past) (c : Core) (generation : Nat)
    (options : CompileOptions) : Prop :=
  (∃ r ∈ c.runs, r.generation = generation ∧ r.options = options) ∨
    past.Asked generation options

/-- What becomes of the latest run: it goes on, or the compiler failed on it, or
it is displayed. -/
def Fate (environment : Environment) (past : Past) (c : Core) : Prop :=
  ∀ options, past.Asks c c.generation options →
    (∃ r ∈ c.runs, r.generation = c.generation ∧ r.stage.isOver = false) ∨
    (∃ reply failure, past.Answered environment c.generation options reply ∧
      reply.result = .error failure) ∨
    c.output.generation = c.generation ∧
      ∃ reply result, past.Shows environment options reply result c.output

section Fate

variable {environment : Environment} {past : Past} {p : Pipeline} {c d : Core}
  {move : Move} {g : Nat} {o : CompileOptions}

theorem Past.asked_cons_iff :
    Past.Asked ((p, move) :: past) g o ↔ past.Asks p.core g o :=
  Past.saw_cons

theorem Past.Asks.next (h : past.Asks p.core g o) :
    Past.Asks ((p, move) :: past) d g o :=
  .inr (Past.asked_cons_iff.mpr h)

/-- Of the runs up to the latest no more is asked after a move than before. -/
theorem Past.Asks.of_next (sound : p.core.Sound) (turn : p.core.Turn move d)
    (hg : g ≤ p.core.generation) (h : Past.Asks ((p, move) :: past) d g o) :
    past.Asks p.core g o := by
  rcases h with ⟨s, hs, rfl, rfl⟩ | h
  · rcases turn.continues sound hs with ⟨r, hr, hgr, ho, _⟩ | ⟨hlt, _⟩
    · exact .inl ⟨r, hr, hgr, ho⟩
    · exact absurd hg (Nat.not_le_of_lt hlt)
  · exact Past.asked_cons_iff.mp h

theorem Chronicle.options_of_asks (h : Chronicle environment past c)
    (asks : past.Asks c g o) {r : Run} (mem : r ∈ c.runs) (hg : r.generation = g) :
    r.options = o := by
  rcases asks with ⟨s, hs, hgs, rfl⟩ | asked
  · rw [h.sound.eq_of_generation mem hs (hg.trans hgs.symm)]
  · exact h.asked.marked asked r mem hg

/-- As long as nobody halts the pipeline, a latest run that stays the latest
meets one of the three fates. -/
theorem Fate.next (f : Fate environment past p.core)
    (h : Chronicle environment past p.core) (u : p.core.Unhalted)
    (compiler : environment.compiler ≠ none) (turn : p.core.Turn move d)
    (latest : d.generation = p.core.generation) :
    Fate environment ((p, move) :: past) d := by
  intro o asks
  rw [latest] at asks ⊢
  have before := asks.of_next h.sound turn (Nat.le_refl _)
  rcases f o before with ⟨r, hr, hg, isOpen⟩ | ⟨reply, failure, ha, hf⟩ | ⟨hg, shows⟩
  · have hopt := h.options_of_asks before hr hg
    rcases turn.survives h.sound hr isOpen with ⟨s, hs, hgs, hopen⟩ | concludes
    · exact .inl ⟨s, hs, hgs.trans hg, hopen⟩
    · cases concludes with
      | @fails reply failure takes failed =>
          refine .inr (.inl ⟨reply, failure, ?_, failed⟩)
          rw [← hg, ← hopt]
          exact (h.answered_of_takes hr takes).cons _
      | superseded live old => exact absurd hg old
      | publishes yields _ output =>
          obtain ⟨reply, shows⟩ := h.shows_of_yields move hr yields
          rw [output]
          exact .inr (.inr ⟨hg, reply, _, hopt ▸ shows⟩)
      | quits why =>
          rcases why with hs | ⟨_, hn⟩
          · exact absurd hs (u.runs r hr)
          · exact absurd (h.given ▸ hn) compiler
  · exact .inr (.inl ⟨reply, failure, ha.cons _, hf⟩)
  · by_cases hout : d.output = p.core.output
    · obtain ⟨reply, result, shows⟩ := shows
      rw [hout]
      exact .inr (.inr ⟨hg, reply, result, shows.cons _⟩)
    · obtain ⟨hlt, hgen, _⟩ := h.publishes turn hout
      rw [hg, ← latest, hgen] at hlt
      exact absurd hlt (Nat.lt_irrefl _)

/-- The control loop takes a trigger: whether or not it starts a run, the latest
run asks for what the trigger asks for. -/
theorem Past.asks_dispatch
    (latest : ∀ o, c.latest = some o → past.Asks c c.generation o)
    (trigger : Trigger) :
    (∀ o, (c.dispatch trigger).latest = some o →
        past.Asks (c.dispatch trigger) (c.dispatch trigger).generation o) ∧
      (c.environment.compiler ≠ none →
        past.Asks (c.dispatch trigger) (c.dispatch trigger).generation
          (c.optionsFor trigger)) := by
  unfold Core.dispatch
  split
  · next hskip =>
      refine ⟨latest, fun compiler => latest _ ?_⟩
      exact hskip.resolve_left (by simpa using compiler)
  · have hasks : past.Asks (c.mint (c.optionsFor trigger)) (c.generation + 1)
        (c.optionsFor trigger) :=
      .inl ⟨_, List.mem_append_right _ (List.mem_singleton_self _), rfl, rfl⟩
    refine ⟨fun o ho => ?_, fun _ => hasks⟩
    cases ho
    exact hasks

theorem Past.asks_foldl_dispatch
    (latest : ∀ o, c.latest = some o → past.Asks c c.generation o)
    (queue : List Trigger) :
    (∀ o, (queue.foldl Core.dispatch c).latest = some o →
        past.Asks (queue.foldl Core.dispatch c)
          (queue.foldl Core.dispatch c).generation o) ∧
      (c.environment.compiler ≠ none → ∀ trigger, queue.getLast? = some trigger →
        past.Asks (queue.foldl Core.dispatch c)
          (queue.foldl Core.dispatch c).generation (c.optionsFor trigger)) := by
  induction queue generalizing c with
  | nil => exact ⟨latest, by simp⟩
  | cons first rest ih =>
      obtain ⟨latest', asks⟩ := Past.asks_dispatch latest first
      obtain ⟨_, _, _, hd⟩ := Core.dispatch_frame c first
      have henv : (c.dispatch first).environment = c.environment := by rw [hd]
      obtain ⟨fl, fa⟩ := ih latest'
      refine ⟨fl, fun compiler trigger hlast => ?_⟩
      cases rest with
      | nil =>
          cases hlast
          exact asks compiler
      | cons second rest =>
          have hopt : (c.dispatch first).optionsFor trigger = c.optionsFor trigger := by
            simp only [Core.optionsFor, henv]
          rw [← hopt]
          exact fa (henv ▸ compiler) trigger hlast

/-- What is kept in mind is what the latest run asked for. -/
theorem Past.latest_next
    (latest : ∀ o, p.core.latest = some o → past.Asks p.core p.core.generation o)
    (turn : p.core.Turn move d) :
    ∀ o, d.latest = some o → Past.Asks ((p, move) :: past) d d.generation o := by
  rcases turn.consumes_or_keeps with ⟨-, rest, rfl⟩ | ⟨hg, hl, -⟩
  · let e : Core := { p.core with queue := [], jobs := rest }
    have hlatest (o : CompileOptions) (ho : e.latest = some o) :
        Past.Asks ((p, move) :: past) e e.generation o := (latest o ho).next
    exact (Past.asks_foldl_dispatch hlatest p.core.queue).1
  · intro o ho
    rcases hl with hl | ⟨hl, -⟩
    · rw [hg]
      exact (latest o (hl ▸ ho)).next
    · rw [hl] at ho
      cases ho

/-- A pipeline that heads for the settled text goes on heading for it. When the
control loop works off the queue, the last trigger makes the latest run ask for
it. -/
theorem Past.heads_next (u : p.core.Unhalted) (given : p.core.environment.compiler ≠ none)
    (latest : ∀ o, p.core.latest = some o → past.Asks p.core p.core.generation o)
    (heads : p.core.Queues ∨ p.core.queue = [] ∧
      (p.core.loop = .off ∨ past.Asks p.core p.core.generation p.core.wanted))
    (turn : p.core.Turn move d) (hm : move ≠ .halt) :
    d.Queues ∨ d.queue = [] ∧
      (d.loop = .off ∨ Past.Asks ((p, move) :: past) d d.generation d.wanted) := by
  rcases u.heads turn hm with ⟨rest, awake, rfl⟩ | ⟨hgen, _, hheads⟩
  · let e : Core := { p.core with queue := [], jobs := rest }
    have latest (o : CompileOptions) (ho : e.latest = some o) :
        Past.Asks ((p, move) :: past) e e.generation o := (latest o ho).next
    obtain ⟨_, asks⟩ := Past.asks_foldl_dispatch latest p.core.queue
    obtain ⟨_, _, _, hq⟩ := Core.foldl_dispatch_frame p.core.queue e
    have hqueue : (p.core.queue.foldl Core.dispatch e).queue = [] := by rw [hq]
    have hwanted : (p.core.queue.foldl Core.dispatch e).wanted = p.core.wanted := by
      rw [hq]
      rfl
    refine .inr ⟨hqueue, .inr ?_⟩
    show Past.Asks _ _ _ (p.core.queue.foldl Core.dispatch e).wanted
    rw [hwanted]
    rcases heads with ⟨trigger, hlast, hopt⟩ | ⟨hnil, hoff | asked⟩
    · rw [← hopt]
      exact asks given trigger hlast
    · rcases awake with h | h <;> rw [h] at hoff <;> cases hoff
    · rw [hnil]
      exact asked.next
  · rcases hheads with hq | ⟨hq, henv, hw, hl⟩
    · exact .inl hq
    · rcases heads with ⟨trigger, hlast, hopt⟩ | ⟨hnil, hoff | asked⟩
      · refine .inl ⟨trigger, hq ▸ hlast, ?_⟩
        rw [hw, ← hopt]
        simp only [Core.optionsFor, henv]
      · exact .inr ⟨hq.trans hnil, .inl (hl.trans hoff)⟩
      · rw [hgen, hw]
        exact .inr ⟨hq.trans hnil, .inr asked.next⟩

/-- A run that has just been started goes on. -/
theorem Fate.foldl_dispatch (f : Fate environment past c) (queue : List Trigger) :
    Fate environment past (queue.foldl Core.dispatch c) := by
  induction queue generalizing c with
  | nil => exact f
  | cons trigger rest ih =>
      refine ih ?_
      unfold Core.dispatch
      split
      · exact f
      · exact fun _ _ => .inl
          ⟨_, List.mem_append_right _ (List.mem_singleton_self _), rfl, rfl⟩

end Fate

/-! ## Courses -/

/-- The pipeline is on its way to compile the session as it is. -/
structure Converges (environment : Environment) (past : Past) (c : Core) : Prop where
  unhalted : c.Unhalted
  started : (∃ step ∈ past, step.2 = .act .start) → c.loop ≠ .off
  settles : c.Settles
  latest : ∀ o, c.latest = some o → past.Asks c c.generation o
  heads : c.Queues ∨
    c.queue = [] ∧ (c.loop = .off ∨ past.Asks c c.generation c.wanted)
  fate : Fate environment past c

namespace Converges

variable {environment : Environment} {past : Past} {p : Pipeline} {d : Core}
  {move : Move}

theorem next (v : Converges environment past p.core)
    (h : Chronicle environment past p.core) (compiler : environment.compiler ≠ none)
    (turn : p.core.Turn move d) (hm : move ≠ .halt) :
    Converges environment ((p, move) :: past) d := by
  have unhalted := v.unhalted.turn h.sound turn hm
  have settles := v.settles.turn turn hm
  have started : (∃ step ∈ (p, move) :: past, step.2 = .act .start) →
      d.loop ≠ .off := by
    rintro ⟨step, hstep, hstart⟩
    refine (v.unhalted.loop_turn turn hm).2.2 ?_
    rcases List.mem_cons.mp hstep with rfl | hstep
    · exact .inr hstart
    · exact .inl (v.started ⟨step, hstep, hstart⟩)
  refine ⟨unhalted, started, settles, Past.latest_next v.latest turn,
    Past.heads_next v.unhalted (h.given ▸ compiler) v.latest v.heads turn hm, ?_⟩
  rcases v.unhalted.heads turn hm with ⟨rest, _, rfl⟩ | ⟨hgen, _⟩
  · let e : Core := { p.core with queue := [], jobs := rest }
    have fate : Fate environment ((p, move) :: past) e := by
      intro o asks
      have before : past.Asks p.core p.core.generation o := by
        rcases asks with asks | asks
        · exact .inl asks
        · exact Past.asked_cons_iff.mp asks
      rcases v.fate o before with hr | ⟨reply, failure, ha, hf⟩ |
        ⟨hg, reply, result, shows⟩
      · exact .inl hr
      · exact .inr (.inl ⟨reply, failure, ha.cons _, hf⟩)
      · exact .inr (.inr ⟨hg, reply, result, shows.cons _⟩)
    exact fate.foldl_dispatch p.core.queue
  · exact v.fate.next h v.unhalted compiler turn hgen

end Converges

namespace Pipeline

variable {environment : Environment} {window : Int} {fragment : Text}
  {p : Pipeline}

theorem converges_new (h : new environment window fragment = .ok p) :
    Converges environment [] p.core := by
  obtain ⟨_, hheld, rfl⟩ := new_eq_ok h
  refine ⟨⟨rfl, ⟨by simp [core], by simp [core]⟩, by simp [core]⟩, ?_, ?_,
    by simp [core], .inr ⟨rfl, .inl rfl⟩, ?_⟩
  · rintro ⟨_, hs, _⟩
    cases hs
  · simp only [Core.Settles, core, hheld]
  · rintro o (⟨_, hr, _⟩ | ⟨_, hs, _⟩)
    · cases hr
    · cases hs

theorem converges_follow (h : new environment window fragment = .ok p)
    (compiler : environment.compiler ≠ none) {moves : List Move}
    (hm : .halt ∉ moves) :
    Converges environment (p.past moves) (p.follow moves).core := by
  induction moves with
  | nil => exact converges_new h
  | cons move before ih =>
      have chronicle := chronicle_follow h before
      exact (ih (List.not_mem_of_not_mem_cons hm)).next chronicle compiler
        (core_turn _ move chronicle.script) (List.ne_of_not_mem_cons hm).symm

/-- A pipeline with a compiler is started and never halted. Whenever nothing is
held back, nothing is queued and no run is in flight, the latest run was for the
session as it is, and the compiler has answered it. If it gave a result, that
result is displayed: its modules, its diagnostics, and no bundles or, when the
session transpiles, those that the engine made of it. -/
theorem displays_session_of_drained (h : new environment window fragment = .ok p)
    (compiler : environment.compiler ≠ none) {moves : List Move}
    (started : .act .start ∈ moves) (unhalted : .halt ∉ moves)
    (settled : (p.follow moves).debouncer.isPending = false)
    (consumed : (p.follow moves).queue = []) (ended : (p.follow moves).runs = []) :
    let q := p.follow moves
    let past := p.past moves
    let options := CompileOptions.ofSession environment.rootDir q.session
      q.session.source
    (∀ o, past.Asked q.generation o ↔ o = options) ∧
      ∃ reply, (∀ a, past.Answered environment q.generation options a ↔ a = reply) ∧
        ∀ result, reply.result = .ok result →
          q.output.generation = q.generation ∧
          q.output.modules = result.modules ∧
          q.output.diagnostics = result.diagnostics ∧
          (q.session.transpile = false → q.output.bundles = []) ∧
          (q.session.transpile = true → ∃ engineRun,
            (∀ e, past.Built environment q.generation result e ↔ e = engineRun) ∧
            ∀ chunks, (engineRun.outcome Settings.entryId).1 = some chunks →
              q.output.bundles = chunks) := by
  intro q past options
  have chronicle := chronicle_follow h moves
  have converges := converges_follow h compiler unhalted
  have running : q.loop ≠ .off := by
    refine converges.started ?_
    rw [← map_snd_past p moves] at started
    exact List.mem_map.mp started
  have source : q.settled = q.session.source := by
    have hs : q.core.Settles := converges.settles
    have hheld : q.core.held = none :=
      Option.isNone_iff_eq_none.mp (Option.isSome_eq_false_iff.mp settled)
    unfold Core.Settles at hs
    rw [hheld] at hs
    exact hs
  have wanted : q.core.wanted = options := by
    show CompileOptions.ofSession q.environment.rootDir q.session q.settled = options
    rw [source, show q.environment = environment from chronicle.given]
  have asked : past.Asked q.generation options := by
    rcases converges.heads with ⟨_, hlast, _⟩ | ⟨_, hoff | ⟨_, hr, _⟩ | asked⟩
    · rw [show (p.follow moves).core.queue = [] from consumed] at hlast
      cases hlast
    · exact absurd hoff running
    · rw [core_runs_eq_nil.mpr ended] at hr
      cases hr
    · rw [← wanted]
      exact asked
  have askedOnly (o : CompileOptions) : past.Asked q.generation o ↔ o = options := by
    refine ⟨fun ho => chronicle.asked.unique ho asked, ?_⟩
    rintro rfl
    exact asked
  have answeredOnly {reply : CompilerReply}
      (hr : past.Answered environment q.generation options reply) (a : CompilerReply) :
      past.Answered environment q.generation options a ↔ a = reply := by
    refine ⟨fun ha => chronicle.answered_unique ha hr, ?_⟩
    rintro rfl
    exact hr
  refine ⟨askedOnly, ?_⟩
  rcases converges.fate options (.inr asked) with ⟨_, hr, _⟩ |
    ⟨reply, failure, ha, hf⟩ | ⟨hg, reply, result, shows⟩
  · rw [core_runs_eq_nil.mpr ended] at hr
    cases hr
  · refine ⟨reply, answeredOnly ha, fun result hr => ?_⟩
    rw [hf] at hr
    cases hr
  · have hg : q.output.generation = q.generation := hg
    have answered : past.Answered environment q.generation options reply := by
      rw [← hg]
      exact shows.answered
    refine ⟨reply, answeredOnly answered, fun result' hr => ?_⟩
    rw [shows.ok] at hr
    cases hr
    refine ⟨hg, shows.modules, shows.diagnostics, shows.plain, fun ht => ?_⟩
    obtain ⟨engineRun, built, chunks⟩ := shows.bundled ht
    refine ⟨engineRun, fun e => ⟨fun he => ?_, ?_⟩, chunks⟩
    · rw [← hg] at he
      exact chronicle.built_unique he built
    · rintro rfl
      rw [← hg]
      exact built

theorem displays_session_after_start : ∃ p, new .prompt 0 [] = .ok p ∧
    (p.follow [.job, .job, .job, .act .start]).runs = [] ∧
    (p.follow [.job, .job, .job, .act .start]).output.generation =
      (p.follow [.job, .job, .job, .act .start]).generation := by
  have hnil {runs : List Run} (h : runs.length = 0) : runs = [] :=
    List.length_eq_zero_iff.mp h
  refine ⟨_, rfl, hnil (by decide), ?_⟩
  obtain ⟨_, reply, only, displays⟩ := @displays_session_of_drained .prompt 0 [] _ rfl
    (by simp [Environment.prompt]) [.job, .job, .job, .act .start] (by simp) (by simp)
    (by decide)
    (List.length_eq_zero_iff.mp (by decide)) (hnil (by decide))
  have hreply := (only (.answered (.obj []))).mp (.atOnce rfl rfl)
  exact (displays ⟨[], []⟩ (hreply ▸ rfl)).1

end Pipeline

end Playground
