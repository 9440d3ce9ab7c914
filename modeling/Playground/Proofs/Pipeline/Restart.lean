import Playground.Proofs.Pipeline.Outlook

/-!
# Starting a pipeline again

A pipeline that was halted and is started again puts one trigger into the
queue, for the settled text. Two things may then be amiss. Halting drops an
edit that is held back, but the document keeps it, so that the settled text is
not the document. And halting cancels the latest run, but the pipeline keeps in
mind what the run asked for, so that the trigger is skipped when it asks for
the same.

So there are two questions when the pipeline is started: whether the settled
text is the document, and whether anything is going to be displayed at all,
that is whether the queue asks for something new or the latest run is still in
flight. When something is, it is what was asked for last, and that is for the
settled text. When nothing is, the output stays as it is. Once a run has been
started for the settled text, everything is as in a pipeline that was never
halted.
-/

namespace Playground

namespace Core

variable {c d : Core} {r s : Run} {move : Move}

/-! ## Cancelled runs are waited for -/

/-- Whoever cancelled a run is still waiting for it. -/
def Attended (c : Core) : Prop :=
  ∀ r ∈ c.runs, r.stage = .cancelled →
    (∃ n, c.halt = some (.runs n)) ∧ .caller ∈ r.watchers

theorem Attended.mono (a : c.Attended) (halt : d.halt = c.halt)
    (runs : ∀ s ∈ d.runs, s.stage = .cancelled → ∃ r ∈ c.runs,
      r.stage = .cancelled ∧ r.watchers = s.watchers) : d.Attended := by
  intro s hs hc
  obtain ⟨r, hr, hrc, hw⟩ := runs s hs hc
  rw [halt, ← hw]
  exact a r hr hrc

theorem Attended.setStage (a : c.Attended) (generation : Nat) {stage : Stage}
    (hs : stage ≠ .cancelled) (halt : d.halt = c.halt)
    (runs : d.runs = (c.setStage generation stage).runs) : d.Attended := by
  refine a.mono halt fun s hmem hc => ?_
  rw [runs] at hmem
  obtain ⟨t, ht, rfl⟩ := List.mem_map.mp hmem
  split at hc
  · exact absurd hc hs
  · next hne =>
      rw [if_neg hne]
      exact ⟨t, ht, hc, rfl⟩

/-- When nothing is to be waited for any more, no run is cancelled. -/
theorem Attended.not_cancelled (a : c.Attended) (owed : c.Owed)
    (halt : ∀ n, c.halt ≠ some (.runs (n + 1))) (hr : r ∈ c.runs) :
    r.stage ≠ .cancelled := by
  intro hc
  obtain ⟨⟨n, hn⟩, hw⟩ := a r hr hc
  obtain rfl : n = 0 := by
    cases n with
    | zero => rfl
    | succ n => exact absurd hn (halt n)
  unfold Owed outstanding pending at owed
  rw [hn] at owed
  have hpos := sum_callers_pos hr hc hw
  simp only [] at owed
  omega

theorem attended_beginHalt (sound : c.Sound) (reaped : c.Reaped) :
    c.beginHalt.Attended := by
  by_cases hruns : c.runs = []
  · intro r hr
    rw [beginHalt_of_nil hruns] at hr
    obtain ⟨_, _, _, _, hf⟩ := haltLoop_frame { c with held := none }
    rw [hf] at hr
    exact absurd (hruns ▸ hr) List.not_mem_nil
  · intro r hr hc
    refine ⟨?_, ?_⟩
    · rw [beginHalt_of_runs sound hruns]
      exact ⟨_, rfl⟩
    · rcases of_mem_beginHalt_runs sound reaped hruns hr with ⟨_, hw⟩ | ⟨hover, _⟩
      · exact hw
      · rw [hc] at hover
        cases hover

theorem Attended.turn (a : c.Attended) (sound : c.Sound) (orderly : c.Orderly)
    (turn : c.Turn move d) : d.Attended := by
  have same {e : Core} (halt : e.halt = c.halt) (runs : e.runs = c.runs) : e.Attended :=
    a.mono halt fun s hs hc => ⟨s, runs ▸ hs, hc, rfl⟩
  cases turn with
  | still | edits | views | loopEnds | loopSleeps => exact same rfl rfl
  | chooses | loads | starts | fires =>
      obtain ⟨_, _, _, ht⟩ := trigger_frame _
      rw [ht]
      exact same rfl rfl
  | answers | builds | answerDue | buildDue =>
      exact a.setStage _ (by simp) rfl rfl
  | halts => exact attended_beginHalt sound orderly.reaped
  | consumes =>
      obtain ⟨_, _, _, hq⟩ := foldl_dispatch_frame c.queue _
      refine a.mono (by rw [hq]) fun s hs hc => ?_
      rcases mem_foldl_dispatch_runs hs with hs | ⟨_, hcreated⟩
      · exact ⟨s, hs, hc, rfl⟩
      · rw [hc] at hcreated
        cases hcreated
  | @serves r _ mem served =>
      obtain ⟨_, hcalled⟩ := called_frame c r
      cases served with
      | waits | bundles | fails | superseded | publishes =>
          rw [hcalled]
          exact a.setStage _ (by simp) rfl rfl
      | quits => exact a.setStage _ (by simp) rfl rfl
  | reaps =>
      refine a.mono rfl fun s hs hc => ?_
      exact ⟨s, (List.mem_filter.mp hs).1, hc, rfl⟩
  | @notices rest =>
      have hruns : ({ c with jobs := rest } : Core).notice.runs = c.runs := by
        obtain ⟨_, _, _, hn⟩ := notice_frame { c with jobs := rest }
        rw [hn]
      intro r hr hc
      obtain ⟨⟨n, hn⟩, hw⟩ := a r (hruns ▸ hr) hc
      refine ⟨?_, hw⟩
      unfold notice
      split
      · exact ⟨_, rfl⟩
      · exact ⟨_, rfl⟩
      · exact ⟨n, hn⟩
  | @resumes rest =>
      have hruns : ({ c with jobs := rest } : Core).resume.runs = c.runs := by
        obtain ⟨_, _, _, _, hr⟩ := resume_frame { c with jobs := rest }
        rw [hr]
      intro r hr hc
      obtain ⟨⟨n, hn⟩, hw⟩ := a r (hruns ▸ hr) hc
      cases n with
      | zero =>
          refine absurd hc (a.not_cancelled orderly.owed (fun m => ?_) (hruns ▸ hr))
          rw [hn]
          simp
      | succ n =>
          refine ⟨⟨n + 1, ?_⟩, hw⟩
          rw [resume_of_runs (c := { c with jobs := rest }) hn]
          exact hn

/-- When nobody is halting the pipeline, it is as if nobody ever had. -/
theorem Attended.unhalted (a : c.Attended) (orderly : c.Orderly)
    (free : c.halt = none) : c.Unhalted where
  free := free
  loop := by
    have hloop := fun h => free.symm.trans (orderly.lined.halted h)
    exact ⟨fun h => absurd (hloop (.inl h)) (by simp),
      fun h => absurd (hloop (.inr h)) (by simp)⟩
  runs r hr := a.not_cancelled orderly.owed (fun n h => by rw [free] at h; cases h) hr

/-! ## Nobody asks for anything -/

/-- A pipeline that has been halted has its control loop switched off. -/
def SwitchesOff (c : Core) : Prop :=
  c.halt = none → c.loop = .off

theorem switchesOff_haltLoop (c : Core) : c.haltLoop.SwitchesOff := by
  unfold haltLoop SwitchesOff
  split
  · next h => exact fun _ => h
  · simp
  · simp

theorem SwitchesOff.turn (o : c.SwitchesOff) (quiet : move.isQuiet = true)
    (turn : c.Turn move d) : d.SwitchesOff := by
  have input := Move.not_isInput_of_isQuiet quiet
  have awake {loop : Loop} (h : c.loop = loop) (hne : loop ≠ .off) : c.halt ≠ none :=
    fun free => hne (h.symm.trans (o free))
  cases turn with
  | still | views | answers | builds | loopSleeps | reaps | answerDue | buildDue =>
      exact o
  | edits _ _ h | chooses _ _ h | loads _ h => exact absurd h input
  | starts | halts => cases quiet
  | fires =>
      obtain ⟨_, _, _, ht⟩ := trigger_frame _
      rw [SwitchesOff, trigger_loop, ht]
      intro free
      rw [if_neg (by rw [show _ = Loop.off from o free]; simp)]
      exact o free
  | consumes h =>
      obtain ⟨_, _, _, hq⟩ := foldl_dispatch_frame c.queue _
      rw [hq]
      exact fun free => (h.elim (awake · (by simp)) (awake · (by simp)) free).elim
  | loopEnds h => exact fun free => (awake h (by simp) free).elim
  | serves mem served =>
      obtain ⟨_, _, hloop, _, hhalt⟩ := served.frame
      rw [SwitchesOff, hloop, hhalt]
      exact o
  | notices =>
      unfold notice
      split
      · simp [SwitchesOff]
      · simp [SwitchesOff]
      · exact o
  | resumes =>
      unfold resume
      split
      · exact switchesOff_haltLoop _
      · exact fun _ => rfl
      · exact o

end Core

/-! ## Courses -/

namespace Pipeline

variable {environment : Environment} {window : Int} {fragment : Text}
  {p : Pipeline}

theorem attended_follow (h : new environment window fragment = .ok p)
    (moves : List Move) : (p.follow moves).core.Attended := by
  induction moves with
  | nil =>
      obtain ⟨_, _, rfl⟩ := new_eq_ok h
      rintro r hr
      cases hr
  | cons move before ih =>
      have chronicle := chronicle_follow h before
      exact ih.turn chronicle.sound (orderly_follow h before)
        (core_turn _ move chronicle.script)

theorem latest_follow (h : new environment window fragment = .ok p)
    (moves : List Move) : ∀ o, (p.follow moves).core.latest = some o →
      (p.past moves).Asks (p.follow moves).core (p.follow moves).core.generation o := by
  induction moves with
  | nil =>
      obtain ⟨_, _, rfl⟩ := new_eq_ok h
      intro o ho
      cases ho
  | cons move before ih =>
      exact Past.latest_next ih (core_turn _ move (chronicle_follow h before).script)

theorem displays_follow (h : new environment window fragment = .ok p)
    (moves : List Move) : ∀ o,
      (p.past moves).Asks (p.follow moves).core (p.follow moves).output.generation o →
        (p.past moves).Displays environment (p.follow moves).output o := by
  induction moves with
  | nil =>
      obtain ⟨_, _, rfl⟩ := new_eq_ok h
      rintro o (⟨r, hr, _⟩ | ⟨_, hs, _⟩)
      · cases hr
      · cases hs
  | cons move before ih =>
      have chronicle := chronicle_follow h before
      exact chronicle.displays_next ih (core_turn _ move chronicle.script)

/-- Once a pipeline has been halted nothing is held back and the control loop is
switched off, as long as nobody asks for anything. -/
theorem halted_follow (h : new environment window fragment = .ok p)
    {moves : List Move} (free : (p.follow moves).halt = none)
    {quiet : List Move} (hquiet : ∀ move ∈ quiet, move.isQuiet = true) :
    (p.follow (quiet ++ .halt :: moves)).core.held = none ∧
      (p.follow (quiet ++ .halt :: moves)).core.SwitchesOff := by
  induction quiet with
  | nil =>
      have chronicle := chronicle_follow h moves
      show ((p.follow moves).after .halt).core.held = none ∧
        ((p.follow moves).after .halt).core.SwitchesOff
      rw [core_after_halt chronicle.script free]
      obtain ⟨_, _, _, _, _, hb⟩ := Core.beginHalt_frame (p.follow moves).core
      refine ⟨by rw [hb], ?_⟩
      by_cases hruns : (p.follow moves).core.runs = []
      · rw [Core.beginHalt_of_nil hruns]
        exact Core.switchesOff_haltLoop _
      · rw [Core.beginHalt_of_runs chronicle.sound hruns]
        intro hnone
        cases hnone
  | cons move quiet ih =>
      obtain ⟨held, off⟩ := ih fun m hm => hquiet m (List.mem_cons_of_mem _ hm)
      have hmove := hquiet move List.mem_cons_self
      have turn := core_turn (p.follow (quiet ++ .halt :: moves)) move
        (chronicle_follow h _).script
      exact ⟨(turn.keeps_input hmove held).1, off.turn hmove turn⟩

/-- To start a pipeline that is off puts a trigger for the settled text into the
queue. -/
theorem core_start_of_off (h : new environment window fragment = .ok p)
    {moves : List Move} (off : (p.follow moves).core.loop = .off) :
    (p.follow (.act .start :: moves)).core = ({ (p.follow moves).core with
      loop := .created
      jobs := (p.follow moves).core.jobs ++ [Job.loop] } : Core).trigger := by
  have turn := core_turn (p.follow moves) (.act .start) (chronicle_follow h moves).script
  show ((p.follow moves).after (.act .start)).core = _
  generalize ((p.follow moves).after (.act .start)).core = d at turn
  cases turn with
  | still ignored => exact absurd off ignored
  | edits _ _ input | chooses _ _ input | loads _ input => cases input
  | starts => rfl

theorem resumes_of_start (h : new environment window fragment = .ok p)
    {moves : List Move} (off : (p.follow moves).core.loop = .off)
    (free : (p.follow moves).halt = none) :
    Resumes (p.past (.act .start :: moves)) (p.follow (.act .start :: moves)).core where
  unhalted := by
    have chronicle := chronicle_follow h moves
    have unhalted := (attended_follow h moves).unhalted (orderly_follow h moves) free
    exact unhalted.turn chronicle.sound (core_turn _ (.act .start) chronicle.script) (by simp)
  running := by
    rw [core_start_of_off h off, Core.trigger_loop]
    simp
  latest := latest_follow h _
  heads := by
    rw [core_start_of_off h off]
    exact .inl (Core.queues_trigger _)

theorem resumes_follow (h : new environment window fragment = .ok p)
    (compiler : environment.compiler ≠ none) {moves : List Move}
    (resumes : Resumes (p.past moves) (p.follow moves).core)
    (outlook : Outlook environment (p.past moves) [] (p.follow moves).core)
    {later : List Move} (hlater : .halt ∉ later) :
    Resumes (p.past (later ++ moves)) (p.follow (later ++ moves)).core ∧
      Outlook environment (p.past (later ++ moves)) ((p.follow moves).past later)
        (p.follow (later ++ moves)).core := by
  induction later with
  | nil => exact ⟨resumes, outlook⟩
  | cons move later ih =>
      obtain ⟨resumes', outlook'⟩ := ih (List.not_mem_of_not_mem_cons hlater)
      have chronicle := chronicle_follow h (later ++ moves)
      have turn := core_turn _ move chronicle.script
      refine ⟨resumes'.next chronicle compiler turn (List.ne_of_not_mem_cons hlater).symm, ?_⟩
      rw [past, ← follow_append]
      exact outlook'.next chronicle resumes'.unhalted compiler turn

/-- As long as nothing new is asked for, the output and what it shows stay the
same. -/
theorem stuck_follow (h : new environment window fragment = .ok p) {moves : List Move}
    (stuck : (p.follow moves).core.Stuck) {later : List Move}
    (hlater : ∀ move ∈ later, move.isQuiet = true) :
    (p.follow (later ++ moves)).core.Stuck ∧
      ∀ o, (p.past (later ++ moves)).Displays environment
          (p.follow (later ++ moves)).output o ↔
        (p.past moves).Displays environment (p.follow moves).output o := by
  induction later with
  | nil => exact ⟨stuck, fun _ => Iff.rfl⟩
  | cons move later ih =>
      obtain ⟨stuck', same⟩ := ih fun m hm => hlater m (List.mem_cons_of_mem _ hm)
      have chronicle := chronicle_follow h (later ++ moves)
      have turn := core_turn _ move chronicle.script
      obtain ⟨stuck'', output, _⟩ :=
        stuck'.turn chronicle.sound (hlater move List.mem_cons_self) turn
      have output : (p.follow (move :: later ++ moves)).output =
          (p.follow (later ++ moves)).output := output
      refine ⟨stuck'', fun o => ?_⟩
      rw [output, ← same o]
      refine ⟨fun ⟨_, _, shows⟩ => ?_, (·.cons _)⟩
      exact displays_follow h (later ++ moves) o (Past.asked_cons_iff.mp shows.asked)

theorem keeps_input_follow (h : new environment window fragment = .ok p)
    {moves : List Move} (held : (p.follow moves).core.held = none) {later : List Move}
    (hlater : ∀ move ∈ later, move.isQuiet = true) :
    let c := (p.follow moves).core
    let d := (p.follow (later ++ moves)).core
    d.held = none ∧ d.settled = c.settled ∧ d.session.source = c.session.source ∧
      ∀ source, d.optionsFor ⟨d.session, source⟩ = c.optionsFor ⟨c.session, source⟩ := by
  intro c d
  induction later with
  | nil => exact ⟨held, rfl, rfl, fun _ => rfl⟩
  | cons move later ih =>
      obtain ⟨held', settled', source', options'⟩ :=
        ih fun m hm => hlater m (List.mem_cons_of_mem _ hm)
      have turn := core_turn (p.follow (later ++ moves)) move (chronicle_follow h _).script
      obtain ⟨held'', settled'', source'', options''⟩ :=
        turn.keeps_input (hlater move List.mem_cons_self) held'
      exact ⟨held'', settled''.trans settled', source''.trans source',
        fun source => (options'' source).trans (options' source)⟩

theorem settles_follow (h : new environment window fragment = .ok p) {moves : List Move}
    (settles : (p.follow moves).core.Settles) {later : List Move} (hlater : .halt ∉ later) :
    (p.follow (later ++ moves)).core.Settles := by
  induction later with
  | nil => exact settles
  | cons move later ih =>
      have turn := core_turn (p.follow (later ++ moves)) move (chronicle_follow h _).script
      exact (ih (List.not_mem_of_not_mem_cons hlater)).turn turn
        (List.ne_of_not_mem_cons hlater).symm

/-- A pipeline that was halted and started again heads for the text that was
settled when halting began. -/
theorem resumes_after_restart (h : new environment window fragment = .ok p)
    {moves : List Move} (free : (p.follow moves).halt = none)
    {quiet : List Move} (hquiet : ∀ move ∈ quiet, move.isQuiet = true)
    (halted : (p.follow (quiet ++ .halt :: moves)).halt = none) :
    let restart := .act .start :: (quiet ++ .halt :: moves)
    let c := (p.follow restart).core
    Resumes (p.past restart) c ∧ c.held = none ∧
      c.settled = (p.follow moves).settled ∧
      c.session.source = (p.follow moves).session.source := by
  intro restart c
  have begun : (p.follow (.halt :: moves)).core = (p.follow moves).core.beginHalt :=
    core_after_halt (chronicle_follow h moves).script free
  obtain ⟨_, _, _, _, _, hb⟩ := Core.beginHalt_frame (p.follow moves).core
  obtain ⟨held, settled, source, _⟩ := keeps_input_follow h (by rw [begun, hb]) hquiet
  have off := (halted_follow h free hquiet).2 halted
  obtain ⟨_, _, _, ht⟩ := Core.trigger_frame { (p.follow (quiet ++ .halt :: moves)).core with
    loop := .created
    jobs := (p.follow (quiet ++ .halt :: moves)).core.jobs ++ [Job.loop] }
  have hc : c = _ := (core_start_of_off h off).trans ht
  refine ⟨resumes_of_start h off halted, ?_, ?_, ?_⟩ <;> rw [hc]
  · exact held
  · refine settled.trans ?_
    rw [begun, hb]
    rfl
  · refine source.trans ?_
    rw [begun, hb]
    rfl

/-- From now on the session as it is gets displayed, whatever happens, as long as
nobody halts the pipeline. -/
theorem displays_asIs (h : new environment window fragment = .ok p)
    (compiler : environment.compiler ≠ none) {moves : List Move}
    (resumes : Resumes (p.past moves) (p.follow moves).core)
    (settles : (p.follow moves).core.Settles)
    (bright : (p.follow moves).core.Renews ∨ (p.follow moves).core.Runs ∨
      (p.past moves).Displays environment (p.follow moves).output
        (p.follow moves).core.wanted)
    {later : List Move} (hlater : .halt ∉ later)
    (settled : (p.follow (later ++ moves)).core.held = none)
    (consumed : (p.follow (later ++ moves)).core.queue = [])
    (ended : (p.follow (later ++ moves)).core.runs = [])
    (succeeds : (p.past (later ++ moves)).Succeeds ((p.follow moves).past later)
      environment) :
    (p.past (later ++ moves)).Displays environment (p.follow (later ++ moves)).output
      (p.follow (later ++ moves)).core.asIs := by
  have outlook : Outlook environment (p.past moves) [] (p.follow moves).core :=
    resumes.outlook (chronicle_follow h moves) bright
  obtain ⟨resumes', outlook'⟩ := resumes_follow h compiler resumes outlook hlater
  have hs := settles_follow h settles hlater
  unfold Core.Settles at hs
  rw [settled] at hs
  rw [← Core.wanted_eq_asIs_iff.mpr hs]
  exact resumes'.displays_wanted outlook' consumed ended succeeds

/-- As long as nobody asks for anything, a pipeline on the move comes to display
the settled text, and that is right only if it is the document. -/
theorem displays_asIs_iff_of_moving (h : new environment window fragment = .ok p)
    (compiler : environment.compiler ≠ none) {moves : List Move}
    (resumes : Resumes (p.past moves) (p.follow moves).core)
    (held : (p.follow moves).core.held = none)
    (moving : (p.follow moves).core.Renews ∨ (p.follow moves).core.Runs)
    {later : List Move} (hlater : ∀ move ∈ later, move.isQuiet = true)
    (consumed : (p.follow (later ++ moves)).core.queue = [])
    (ended : (p.follow (later ++ moves)).core.runs = [])
    (succeeds : (p.past (later ++ moves)).Succeeds ((p.follow moves).past later)
      environment) :
    (p.past (later ++ moves)).Displays environment (p.follow (later ++ moves)).output
        (p.follow (later ++ moves)).core.asIs ↔
      (p.follow moves).core.settled = (p.follow moves).core.session.source := by
  have outlook : Outlook environment (p.past moves) [] (p.follow moves).core :=
    resumes.outlook (chronicle_follow h moves) (moving.imp_right .inl)
  have unhalted : .halt ∉ later := fun hm => by cases hlater _ hm
  obtain ⟨resumes', outlook'⟩ := resumes_follow h compiler resumes outlook unhalted
  have displays := resumes'.displays_wanted outlook' consumed ended succeeds
  obtain ⟨_, settled, source, _⟩ := keeps_input_follow h held hlater
  rw [← settled, ← source, ← Core.wanted_eq_asIs_iff]
  constructor
  · rintro ⟨_, _, shows'⟩
    obtain ⟨_, _, shows⟩ := displays
    exact (chronicle_follow h (later ++ moves)).asked.unique shows.asked shows'.asked
  · intro same
    rw [← same]
    exact displays

/-- As long as nobody asks for anything, a pipeline that nothing moves is as right
as it was. -/
theorem displays_asIs_iff_of_stuck (h : new environment window fragment = .ok p)
    {moves : List Move} (held : (p.follow moves).core.held = none)
    (still : ¬ ((p.follow moves).core.Renews ∨ (p.follow moves).core.Runs))
    {later : List Move} (hlater : ∀ move ∈ later, move.isQuiet = true) :
    (p.past (later ++ moves)).Displays environment (p.follow (later ++ moves)).output
        (p.follow (later ++ moves)).core.asIs ↔
      (p.past moves).Displays environment (p.follow moves).output
        (p.follow moves).core.asIs := by
  have stuck : (p.follow moves).core.Stuck := by
    refine ⟨fun trigger mem => ?_, fun runs => still (.inr runs), held⟩
    by_contra new
    exact still (.inl ⟨trigger, mem, new⟩)
  obtain ⟨_, _, source, options⟩ := keeps_input_follow h held hlater
  have same : (p.follow (later ++ moves)).core.asIs = (p.follow moves).core.asIs := by
    rw [Core.asIs, Core.asIs, options, source]
  rw [same]
  exact (stuck_follow h stuck hlater).2 _

/-- A pipeline is halted, and when it has been, it is started again. Then what is
displayed once nothing is left to do is what the compiler answered to the session
as it is, if two things hold: the text that was settled when halting began was
the document, and either something new is asked for or the latest run is in
flight when the pipeline is started, or else the output was right all the time.
As long as nobody asks for anything, it is so only then. -/
theorem recomputes_after_restart (h : new environment window fragment = .ok p)
    (compiler : environment.compiler ≠ none) {moves quiet : List Move}
    (free : (p.follow moves).halt = none)
    (hquiet : ∀ move ∈ quiet, move.isQuiet = true)
    (halted : (p.follow (quiet ++ .halt :: moves)).halt = none) :
    let before := p.follow moves
    let restart := .act .start :: (quiet ++ .halt :: moves)
    let started := p.follow restart
    let after (later : List Move) := p.follow (later ++ restart)
    let past (later : List Move) := p.past (later ++ restart)
    let drains (later : List Move) := (after later).debouncer.isPending = false ∧
      (after later).queue = [] ∧ (after later).runs = []
    let succeeds (later : List Move) :=
      (past later).Succeeds (started.past later) environment
    let right (later : List Move) := (past later).Displays environment (after later).output
      (.ofSession environment.rootDir (after later).session (after later).session.source)
    let current := before.settled = before.session.source
    let moving :=
      (∃ trigger ∈ started.queue, started.latest ≠ some (started.optionsFor trigger)) ∨
        ∃ run ∈ started.runs, run.generation = started.generation ∧
          run.stage.isOver = false
    (current → moving ∨ right [] → ∀ later, .halt ∉ later → drains later →
      succeeds later → right later) ∧
    ∀ later, (∀ move ∈ later, move.isQuiet = true) →
      (moving → drains later → succeeds later → (right later ↔ current)) ∧
      (¬ moving → (right later ↔ right [])) := by
  intro before restart started after past drains succeeds right current moving
  obtain ⟨resumes, held, settled, source⟩ := resumes_after_restart h free hquiet halted
  have hright (later : List Move) : right later ↔
      (past later).Displays environment (after later).output (after later).core.asIs := by
    have given : (after later).core.environment = environment :=
      (chronicle_follow h (later ++ restart)).given
    rw [Core.asIs, Core.optionsFor, given]
    exact Iff.rfl
  have hcurrent : started.core.settled = started.core.session.source ↔ current := by
    rw [settled, source]
  have hmoving : moving ↔ started.core.Renews ∨ started.core.Runs := by
    refine or_congr Iff.rfl ⟨?_, ?_⟩
    · rintro ⟨run, mem, hg, isOpen⟩
      exact ⟨_, mem_core_runs mem, hg, isOpen⟩
    · rintro ⟨r, mem, hg, isOpen⟩
      obtain ⟨run, hrun, hgr, _, hs⟩ := exists_of_mem_core_runs mem
      exact ⟨run, hrun, hgr.trans hg, hs ▸ isOpen⟩
  refine ⟨fun now bright later hlater drained succeeded => ?_,
    fun later hlater => ⟨fun moves drained succeeded => ?_, fun still => ?_⟩⟩
  · obtain ⟨pending, consumed, ended⟩ := drained
    rw [← hcurrent] at now
    have settles : started.core.Settles := by
      unfold Core.Settles
      rw [held]
      exact now
    have heldLater : (after later).core.held = none :=
      Option.isNone_iff_eq_none.mp (Option.isSome_eq_false_iff.mp pending)
    rw [hmoving, hright [], or_assoc] at bright
    refine (hright later).mpr (displays_asIs h compiler resumes settles ?_ hlater heldLater
      consumed (core_runs_eq_nil.mpr ended) succeeded)
    rw [show (p.follow restart).core.wanted = _ from Core.wanted_eq_asIs_iff.mpr now]
    exact bright
  · obtain ⟨_, consumed, ended⟩ := drained
    rw [hright later, ← hcurrent]
    exact displays_asIs_iff_of_moving h compiler resumes held (hmoving.mp moves) hlater consumed
      (core_runs_eq_nil.mpr ended) succeeded
  · rw [hright later, hright []]
    exact displays_asIs_iff_of_stuck h held (mt hmoving.mpr still) hlater

end Pipeline

/-- The session is displayed, an option is changed, and right after that the
pipeline is halted and started again. The moves are listed latest first. -/
def Move.chooseThenRestart : List Move :=
  .act .start :: (List.replicate 3 .job ++ .halt ::
    [.act (.setOptions (some (.str (text "minify"))) none none), .job, .job, .job,
      .act .start])

/-- The only run is in flight when the pipeline is halted and started again. -/
def Move.runThenRestart : List Move :=
  .act .start :: (List.replicate 6 .job ++ [.halt, .job, .job, .act .start])

namespace Pipeline

/-- The option that was changed is not lost. -/
theorem recomputes_choice_after_restart : ∃ p, new .prompt 0 [] = .ok p ∧
    let q := p.follow (List.replicate 6 .job ++ Move.chooseThenRestart)
    q.session.minify = .minify ∧
      (p.past (List.replicate 6 .job ++ Move.chooseThenRestart)).Displays .prompt q.output
        (.ofSession [] q.session q.session.source) := by
  refine ⟨_, rfl, rfl, ?_⟩
  have hnil {runs : List Run} (h : runs.length = 0) : runs = [] :=
    List.length_eq_zero_iff.mp h
  refine (@recomputes_after_restart .prompt 0 [] _ rfl (by simp [Environment.prompt])
    [.act (.setOptions (some (.str (text "minify"))) none none), .job, .job, .job,
      .act .start] (List.replicate 3 .job) rfl ?_ rfl).1 rfl (.inl (.inl ?_))
    (List.replicate 6 .job) (by simp)
    ⟨rfl, List.length_eq_zero_iff.mp (by decide), hnil (by decide)⟩ ?_
  · intro move hm
    rw [List.eq_of_mem_replicate hm]
    rfl
  · refine ⟨_, List.mem_cons_self, fun same => ?_⟩
    exact absurd (congrArg (Option.map CompileOptions.minify) same) (by decide)
  · rintro g o reply _ (⟨given, answer⟩ | ⟨given, answer⟩ | ⟨given, answer, _⟩) <;>
      cases given <;> cases answer
    exact ⟨_, rfl⟩

/-- The pipeline is halted while its first run is in flight, and started again.
No run is started for it, and nothing is ever displayed. -/
theorem stays_stale_after_restart : ∃ p, new .gated 0 [] = .ok p ∧
    let restarted := p.follow Move.runThenRestart
    let past := p.past (List.replicate 3 .job ++ Move.runThenRestart)
    let q := p.follow (List.replicate 3 .job ++ Move.runThenRestart)
    (p.follow Move.runThenRestart.tail).halt = none ∧
      q.debouncer.isPending = false ∧ q.queue = [] ∧ q.runs = [] ∧
      past.Succeeds (restarted.past (List.replicate 3 .job)) .gated ∧
      ¬ past.Displays .gated q.output
        (.ofSession Environment.gated.rootDir q.session q.session.source) := by
  refine ⟨_, rfl, ?_⟩
  intro restarted past q
  have hnil {α : Type} {items : List α} (h : items.length = 0) : items = [] :=
    List.length_eq_zero_iff.mp h
  have unanswered : ∀ step ∈ restarted.past (List.replicate 3 .job),
      ∀ run ∈ step.1.runs, run.stage.isOver = true := by
    unfold restarted
    decide
  have undisplayed : ∀ step ∈ past, ∀ run ∈ step.1.runs,
      run.generation ≠ q.output.generation := by
    unfold past q
    decide
  refine ⟨rfl, rfl, hnil (by decide), hnil (by decide), ?_, ?_⟩
  · rintro g o reply ⟨step, hstep, run, hrun, _, _, isOpen⟩ _
    rw [unanswered step hstep run hrun] at isOpen
    cases isOpen
  · rintro ⟨_, _, ⟨step, hstep, run, hrun, hg, _⟩, _⟩
    exact undisplayed step hstep run hrun hg

end Pipeline

end Playground
