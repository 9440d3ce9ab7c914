import Playground.Proofs.Pipeline.Convergence
import Playground.Proofs.Pipeline.Line
import Playground.Proofs.Pipeline.Outside

/-!
# What is asked for

Whatever asks for a run puts a trigger into the queue: the start, a change of the
options, an edit that is given out, and a session that is taken over. What is asked
for depends on what users put in and on the clock, and on nothing else. So the moves
of a course fall into two classes. Some steer, and the others, which are the jobs, the
answers of the compiler and the engine, and the actions of those who only look on,
can be left out of the course without anything else being asked for.
-/

namespace Playground

/-- Whether an action has a say in what is asked for. -/
def Action.steers : Action → Bool
  | .start | .edit _ | .setOptions .. | .setView _ | .load _ | .reload | .attach _
  | .type .. | .setEncoder _ => true
  | .stop | .answerCompiler .. | .answerEngine .. | .wait | .subscribe
  | .unsubscribe _ | .read _ => false

/-- Whether a move has a say in what is asked for. Halting is left aside. -/
def Move.steers : Move → Bool
  | .act action => action.steers
  | .editDue | .clock _ => true
  | .halt | .job | .answerDue => false

/-! ## Whether the control loop is there -/

namespace Core

variable {c d : Core} {move : Move}

/-- Only a start sets the control loop going. -/
theorem Turn.stays_off (turn : c.Turn move d) (off : c.loop = .off)
    (hm : move ≠ .act .start) : d.loop = .off := by
  have asleep {loop : Loop} (h : c.loop = loop) (hne : loop ≠ .off) : False :=
    hne (h.symm.trans off)
  have triggers (e : Core) (he : e.loop = .off) : e.trigger.loop = .off := by
    rw [trigger_loop, he]
    rfl
  cases turn with
  | still | edits | views | answers | builds | answerDue | buildDue | loopSleeps
  | reaps => exact off
  | chooses | loads | fires => exact triggers _ off
  | starts => exact absurd rfl hm
  | halts =>
      simp only [beginHalt]
      split
      · have same : (Core.cancelRuns { c with held := none } c.runs).loop = .off := off
        unfold haltLoop
        split
        · exact same
        · next h => exact absurd (h.symm.trans same) (by simp)
        · next h _ => exact absurd same h
      · exact off
  | consumes awake => rcases awake with h | h <;> exact (asleep h (by simp)).elim
  | loopEnds cancelled => exact (asleep cancelled (by simp)).elim
  | serves mem served =>
      obtain ⟨_, _, loop, _⟩ := served.frame
      exact loop.trans off
  | notices =>
      obtain ⟨_, _, _, hn⟩ := notice_frame _
      rw [hn]
      exact off
  | @resumes rest =>
      unfold resume
      split
      · unfold haltLoop
        split
        · exact off
        · next h => exact (asleep h (by simp)).elim
        · next h _ => exact absurd off h
      · rfl
      · exact off

end Core

namespace Pipeline

variable {p q : Pipeline} {move : Move}

/-! ## Requests -/

/-- The trigger for a session that is taken over, if it can be written to the fragment. -/
def restores (p : Pipeline) (fragment : Text) : List Trigger :=
  let session := Fragment.decode p.environment.lead p.environment.newSession fragment
  if p.encoderWorks then [⟨session, session.source⟩] else []

/-- What a move asks for: the start and a change of options ask for the settled text, an
edit that is given out asks for its text, and so does a session that is taken over. -/
def requests (p : Pipeline) : Move → List Trigger
  | .act .start => if p.loop = .off then [⟨p.session, p.settled⟩] else []
  | .act (.setOptions minify strategy transpile) =>
    match withOptions p.session minify strategy transpile with
    | .error _ => []
    | .ok session =>
      if session ≠ p.session ∧ p.encoderWorks then [⟨session, p.settled⟩] else []
  | .act (.load fragment) => p.restores fragment
  | .act .reload => p.restores p.fragment.current
  | .editDue =>
    match p.debouncer.held with
    | some (time, source) => if time ≤ p.now then [⟨p.session, source⟩] else []
    | none => []
  | _ => []

/-- What was asked for in a course, in order. -/
def requested (p : Pipeline) : List Move → List Trigger
  | [] => []
  | move :: before => p.requested before ++ (p.follow before).requests move

/-- A trigger is put at the end of the queue, whatever the control loop does about it. -/
@[simp] theorem queue_trigger (p : Pipeline) :
    p.trigger.queue = p.queue ++ [⟨p.session, p.settled⟩] := by
  simp only [trigger]
  split <;> rfl

theorem queue_edit (p : Pipeline) (source : Text) : (p.edit source).1.queue = p.queue := by
  rcases p.edit_cases source with h | ⟨-, -, h⟩ <;> rw [h]
  rfl

theorem queue_typeInto (p : Pipeline) (k : Nat) (source : Text) :
    (p.typeInto k source).1.queue = p.queue :=
  typeInto_rec (motive := fun q : Pipeline => q.queue = p.queue) p k source (fun _ => rfl)
    fun q hq => (queue_edit q source).trans hq

theorem queue_load (p : Pipeline) (fragment : Text) :
    (p.load fragment).1.queue = p.queue ++ p.restores fragment := by
  simp only [load, adopt?, restores]
  cases p.encoderWorks with
  | false => simp
  | true => exact queue_trigger _

theorem queue_setOptions (p : Pipeline) (minify strategy : Option Json)
    (transpile : Option Bool) : (p.setOptions minify strategy transpile).1.queue =
      p.queue ++ p.requests (.act (.setOptions minify strategy transpile)) := by
  simp only [setOptions, requests]
  cases withOptions p.session minify strategy transpile with
  | error e => exact (List.append_nil _).symm
  | ok session =>
      simp only [adopt?]
      by_cases same : session = p.session
      · rw [if_pos same, if_neg (fun h => h.1 same), List.append_nil]
      · rw [if_neg same]
        cases p.encoderWorks with
        | false => simp
        | true =>
            have asks : session ≠ p.session ∧ true = true := ⟨same, rfl⟩
            rw [if_pos asks]
            exact queue_trigger _

theorem queue_act (p : Pipeline) (action : Action) :
    (p.act action).1.queue = p.queue ++ p.requests (.act action) := by
  cases action with
  | start =>
      simp only [act, start, requests]
      split
      · next off =>
          rw [if_pos off]
          exact queue_trigger _
      · next on =>
          rw [if_neg on]
          exact (List.append_nil _).symm
  | edit source => exact (queue_edit p source).trans (List.append_nil _).symm
  | setOptions minify strategy transpile => exact queue_setOptions p minify strategy transpile
  | setView view =>
      refine Eq.trans ?_ (List.append_nil _).symm
      show (p.setView view).1.queue = p.queue
      rcases p.setView_cases view with h | ⟨_, -, -, h⟩ <;> rw [h]
      rfl
  | load fragment => exact queue_load p fragment
  | reload => exact queue_load p _
  | type k source => exact (queue_typeInto p k source).trans (List.append_nil _).symm
  | answerCompiler call reply =>
      refine Eq.trans ?_ (List.append_nil _).symm
      simp only [act, answerCompiler]
      split <;> rfl
  | answerEngine call engineRun =>
      refine Eq.trans ?_ (List.append_nil _).symm
      simp only [act, answerEngine]
      split <;> rfl
  | stop | attach | wait | subscribe | unsubscribe | read | setEncoder =>
      exact (List.append_nil _).symm

/-- An edit that is due is given out, and then its text is settled. -/
theorem editDue_cases (p : Pipeline) :
    p.after .editDue = p ∧ p.requests .editDue = [] ∧
        (∀ time source, p.debouncer.held = some (time, source) → p.now < time) ∨
      ∃ time source, p.debouncer.held = some (time, source) ∧ time ≤ p.now ∧
        p.requests .editDue = [⟨p.session, source⟩] ∧
        p.after .editDue = (fun q : Pipeline => q.release q.debouncer.signal)
          { p with debouncer := { p.debouncer with held := none }, settled := source }.trigger := by
  simp only [after, editDue?, Debouncer.take?, requests]
  cases held : p.debouncer.held with
  | none => exact .inl ⟨rfl, rfl, by simp⟩
  | some edit =>
      obtain ⟨time, source⟩ := edit
      by_cases due : time ≤ p.now
      · refine .inr ⟨time, source, rfl, due, if_pos due, ?_⟩
        simp only [if_pos due]
        rfl
      · refine .inl ⟨?_, if_neg due, fun t s h => ?_⟩
        · simp only [if_neg due]
          rfl
        · cases h
          exact Nat.lt_of_not_le due

/-- What is asked for goes into the queue. -/
theorem queue_after (hj : move ≠ .job) (hh : move ≠ .halt) :
    (p.after move).queue = p.queue ++ p.requests move := by
  cases move with
  | act action => exact queue_act p action
  | halt => exact absurd rfl hh
  | job => exact absurd rfl hj
  | editDue =>
      rcases p.editDue_cases with ⟨same, none, -⟩ | ⟨time, source, -, -, request, gives⟩
      · rw [same, none, List.append_nil]
      · rw [gives, request]
        exact queue_trigger _
  | answerDue =>
      refine Eq.trans ?_ (List.append_nil _).symm
      simp only [after]
      cases due : p.answerDue? with
      | none => rfl
      | some q =>
          obtain ⟨run, -, hr⟩ := List.exists_of_findSome?_eq_some due
          obtain ⟨stage, -, rfl⟩ := Option.map_eq_some_iff.mp hr
          rfl
  | clock => exact (List.append_nil _).symm

/-! ## What does not steer

A move that does not steer leaves alone what users put in, and asks for nothing.
-/

theorem input_job (script : p.script = []) : (p.after .job).input = p.input := by
  simp only [after]
  split
  · rfl
  · next job jobs _ =>
      rcases publishes_or_outside_serve (p := { p with jobs }) script job with publishes | quiet
      · exact publishes.input
      · exact input_eq_of_outside quiet

theorem input_of_not_steers (script : p.script = []) (idle : move.steers = false)
    (hh : move ≠ .halt) : (p.after move).input = p.input := by
  cases move with
  | act action =>
      cases action with
      | answerCompiler call reply => exact input_eq_of_outside (outside_answerCompiler p call reply)
      | answerEngine call engineRun =>
          exact input_eq_of_outside (outside_answerEngine p call engineRun)
      | stop | wait | subscribe | unsubscribe | read => rfl
      | _ => cases idle
  | halt => exact absurd rfl hh
  | job => exact input_job script
  | answerDue =>
      simp only [after]
      cases due : p.answerDue? with
      | none => rfl
      | some q => exact input_eq_of_outside (outside_answerDue due)
  | editDue | clock => cases idle

theorem requests_of_not_steers (p : Pipeline) (idle : move.steers = false) :
    p.requests move = [] := by
  cases move with
  | act action => cases action <;> first | rfl | cases idle
  | halt | job | answerDue => rfl
  | editDue | clock => cases idle

/-! ## What steers

What a move that steers does to what users put in, and what it asks for, depends only
on what users have put in before. For a start it is also to be known whether the
control loop is there.
-/

theorem unmarked_unmarked (editors : List (Editor Unit)) :
    (editors.map unmarked).map unmarked = editors.map unmarked := by
  rw [List.map_map]
  rfl

theorem input_input (p : Pipeline) : p.input.input = p.input := by
  simp only [input, outside, unmarked_unmarked]

theorem requests_input (hs : move ≠ .act .start) : p.requests move = p.input.requests move := by
  cases move with
  | act action =>
      cases action with
      | start => exact absurd rfl hs
      | _ => rfl
  | _ => rfl

theorem requests_congr (same : p.input = q.input) (off : p.loop = .off ↔ q.loop = .off)
    (move : Move) : p.requests move = q.requests move := by
  by_cases hs : move = .act .start
  · subst hs
    have session : p.session = q.session := (congrArg Pipeline.session same :)
    have settled : p.settled = q.settled := (congrArg Pipeline.settled same :)
    simp only [requests, off, session, settled]
  · rw [requests_input hs, same, ← requests_input hs]

theorem input_trigger (p : Pipeline) : p.trigger.input = p.input :=
  input_eq_of_outside (outside_trigger p)

theorem adopt_input (p : Pipeline) (session : Session) :
    p.input.adopt? session = (p.adopt? session).map input := by
  unfold adopt?
  by_cases works : p.encoderWorks = true
  · rw [if_pos works, if_pos (show p.input.encoderWorks = true from works)]
    rfl
  · rw [if_neg works, if_neg (show ¬p.input.encoderWorks = true from works)]
    rfl

/-- Whether an edit is taken, and what comes of it, depends on input only. -/
theorem input_edit (p : Pipeline) (source : Text) :
    (p.edit source).1.input = (p.input.edit source).1.input ∧
      (p.edit source).2 = (p.input.edit source).2 := by
  unfold edit
  by_cases same : source = p.session.source
  · rw [if_pos same, if_pos (show source = p.input.session.source from same)]
    exact ⟨(input_input p).symm, rfl⟩
  · have adopts : p.input.adopt? { p.input.session with source } =
        (p.adopt? { p.session with source }).map input := adopt_input p _
    rw [if_neg same, if_neg (show source ≠ p.input.session.source from same), adopts]
    cases p.adopt? { p.session with source } with
    | none => exact ⟨(input_input p).symm, rfl⟩
    | some q => exact ⟨(input_input _).symm, rfl⟩

theorem input_setOptions (p : Pipeline) (minify strategy : Option Json)
    (transpile : Option Bool) : (p.setOptions minify strategy transpile).1.input =
      (p.input.setOptions minify strategy transpile).1.input := by
  have chosen : withOptions p.input.session minify strategy transpile =
      withOptions p.session minify strategy transpile := rfl
  simp only [setOptions, adopt_input, chosen]
  cases withOptions p.session minify strategy transpile with
  | error e => exact (input_input p).symm
  | ok session =>
      simp only []
      by_cases same : session = p.session
      · rw [if_pos same, if_pos (show session = p.input.session from same)]
        exact (input_input p).symm
      · rw [if_neg same, if_neg (show session ≠ p.input.session from same)]
        cases p.adopt? session with
        | none => exact (input_input p).symm
        | some q =>
            show q.trigger.input = q.input.trigger.input
            rw [input_trigger, input_trigger, input_input]

theorem input_setView (p : Pipeline) (given : Json) :
    (p.setView given).1.input = (p.input.setView given).1.input := by
  unfold setView
  cases View.ofJson given with
  | error e => exact (input_input p).symm
  | ok view =>
      simp only []
      by_cases same : view = p.session.view
      · rw [if_pos same, if_pos (show view = p.input.session.view from same)]
        exact (input_input p).symm
      · have adopts : p.input.adopt? { p.input.session with view } =
            (p.adopt? { p.session with view }).map input := adopt_input p _
        rw [if_neg same, if_neg (show view ≠ p.input.session.view from same), adopts]
        cases p.adopt? { p.session with view } with
        | none => exact (input_input p).symm
        | some q => exact (input_input q).symm

theorem input_load (p : Pipeline) (fragment : Text) :
    (p.load fragment).1.input = (p.input.load fragment).1.input := by
  have decoded : Fragment.decode p.input.environment.lead p.input.environment.newSession fragment =
      Fragment.decode p.environment.lead p.environment.newSession fragment := rfl
  simp only [load, adopt_input, decoded]
  cases p.adopt? (Fragment.decode p.environment.lead p.environment.newSession fragment) with
  | none => exact (input_input p).symm
  | some q =>
      simp only [Option.map_some]
      rw [input_trigger, input_trigger]
      exact (input_input _).symm

/-- Actions one after the other that depend on input only. -/
theorem input_foldl {f : Pipeline × Reply → Unit → Pipeline × Reply}
    (hf : ∀ a b : Pipeline × Reply, a.1.input = b.1.input → a.2 = b.2 →
      (f a ()).1.input = (f b ()).1.input ∧ (f a ()).2 = (f b ()).2) (listeners : List Unit)
    {a b : Pipeline × Reply} (same : a.1.input = b.1.input) (reply : a.2 = b.2) :
    (listeners.foldl f a).1.input = (listeners.foldl f b).1.input := by
  induction listeners generalizing a b with
  | nil => exact same
  | cons _ rest ih =>
      obtain ⟨same', reply'⟩ := hf a b same reply
      exact ih same' reply'

theorem input_typeInto (p : Pipeline) (k : Nat) (source : Text) :
    (p.typeInto k source).1.input = (p.input.typeInto k source).1.input := by
  unfold typeInto
  have editors : p.input.editors[k]? = p.editors[k]?.map unmarked := List.getElem?_map
  rw [editors]
  cases p.editors[k]? with
  | none => exact (input_input p).symm
  | some editor =>
      refine input_foldl ?_ editor.listeners ?_ rfl
      · rintro ⟨q, reply⟩ ⟨r, _⟩ same ⟨⟩
        cases reply with
        | done =>
            have hq := input_edit q source
            have hr := input_edit r source
            rw [show r.input = q.input from same.symm] at hr
            exact ⟨hq.1.trans hr.1.symm, hq.2.trans hr.2.symm⟩
        | _ => exact ⟨same, rfl⟩
      · refine (input_input _).symm.trans ?_
        simp only [input, outside, List.map_set]
        rfl

theorem input_editDue (p : Pipeline) : (p.after .editDue).input = (p.input.after .editDue).input := by
  have gives (q : Pipeline) : ((fun q : Pipeline => q.release q.debouncer.signal) q.trigger).input =
      q.input := by
    refine Eq.trans ?_ (input_trigger q)
    rfl
  rcases p.editDue_cases with ⟨same, -, early⟩ | ⟨time, source, held, due, -, h⟩
  · rcases p.input.editDue_cases with ⟨same', -, -⟩ | ⟨time, source, held, due, -, -⟩
    · rw [same, same', input_input]
    · exact absurd due (Nat.not_le_of_lt (early time source held))
  · rcases p.input.editDue_cases with ⟨-, -, early⟩ | ⟨time', source', held', -, -, h'⟩
    · exact absurd due (Nat.not_le_of_lt (early time source held))
    · have same := held.symm.trans held'
      cases same
      rw [h, h', gives, gives]
      exact (input_input _).symm

/-- What a move that steers does to what users put in depends on that only. -/
theorem input_after (steers : move.steers = true) :
    (p.after move).input = (p.input.after move).input := by
  cases move with
  | act action =>
      cases action with
      | start =>
          have starts (q : Pipeline) : q.start.input = q.input := by
            rcases q.start_cases with ⟨-, h⟩ | ⟨-, h⟩ <;> rw [h]
            exact (input_trigger _).trans rfl
          exact (starts p).trans ((input_input p).symm.trans (starts p.input).symm)
      | edit source => exact (input_edit p source).1
      | setOptions minify strategy transpile => exact input_setOptions p minify strategy transpile
      | setView view => exact input_setView p view
      | load fragment => exact input_load p fragment
      | reload => exact input_load p _
      | attach kind =>
          refine (input_input _).symm.trans ?_
          simp only [after, act, mount, input, outside, List.map_append, unmarked_unmarked]
      | type k source => exact input_typeInto p k source
      | setEncoder works => exact (input_input _).symm
      | _ => cases steers
  | editDue => exact input_editDue p
  | clock now => exact (input_input _).symm
  | halt | job | answerDue => cases steers

theorem input_after_congr (same : p.input = q.input) (steers : move.steers = true) :
    (p.after move).input = (q.after move).input := by
  rw [input_after steers, same, ← input_after steers]

/-! ## Courses -/

variable {environment environment' : Environment} {window window' : Int}
  {fragment fragment' : Text} {moves : List Move}

theorem unhalted_follow (h : new environment window fragment = .ok p) (hm : .halt ∉ moves) :
    (p.follow moves).core.Unhalted := by
  induction moves with
  | nil => exact (converges_new h).unhalted
  | cons move before ih =>
      have chronicle := chronicle_follow h before
      exact (ih (List.not_mem_of_not_mem_cons hm)).turn chronicle.sound
        (core_turn _ move chronicle.script) (List.ne_of_not_mem_cons hm).symm

/-- The control loop of a pipeline that nobody halts is there once someone has started it. -/
theorem off_follow (h : new environment window fragment = .ok p) (hm : .halt ∉ moves) :
    (p.follow moves).loop = .off ↔ .act .start ∉ moves := by
  induction moves with
  | nil =>
      obtain ⟨_, _, rfl⟩ := new_eq_ok h
      simp [follow]
  | cons move before ih =>
      have hb := List.not_mem_of_not_mem_cons hm
      have turn := core_turn (p.follow before) move (chronicle_follow h before).script
      have on := ((unhalted_follow h hb).loop_turn turn (List.ne_of_not_mem_cons hm).symm).2.2
      rw [List.mem_cons, not_or]
      constructor
      · intro off
        refine ⟨fun start => ?_, fun started => ?_⟩
        · exact on (.inr start.symm) off
        · exact on (.inl fun o => (ih hb).mp o started) off
      · rintro ⟨other, unstarted⟩
        exact turn.stays_off ((ih hb).mpr unstarted) fun start => other start.symm

/-- Nothing that does not steer changes what users have put in. -/
theorem input_follow (h : new environment window fragment = .ok p) (hm : .halt ∉ moves) :
    (p.follow moves).input = (p.follow (moves.filter Move.steers)).input := by
  induction moves with
  | nil => rfl
  | cons move before ih =>
      have same := ih (List.not_mem_of_not_mem_cons hm)
      cases steers : move.steers with
      | true =>
          rw [List.filter_cons_of_pos steers]
          exact input_after_congr same steers
      | false =>
          rw [List.filter_cons_of_neg (by simp [steers]), ← same]
          exact input_of_not_steers (chronicle_follow h before).script steers
            (List.ne_of_not_mem_cons hm).symm

/-- Nothing that does not steer changes what is asked for. -/
theorem requested_filter (h : new environment window fragment = .ok p) (hm : .halt ∉ moves) :
    p.requested moves = p.requested (moves.filter Move.steers) := by
  induction moves with
  | nil => rfl
  | cons move before ih =>
      have hb := List.not_mem_of_not_mem_cons hm
      cases steers : move.steers with
      | true =>
          have hf : Move.halt ∉ before.filter Move.steers := fun mem => hb (List.mem_filter.mp mem).1
          have off : (p.follow before).loop = .off ↔
              (p.follow (before.filter Move.steers)).loop = .off := by
            rw [off_follow h hb, off_follow h hf, List.mem_filter]
            simp [Move.steers, Action.steers]
          rw [List.filter_cons_of_pos steers, requested, requested, ih hb,
            requests_congr (input_follow h hb) off]
      | false =>
          rw [List.filter_cons_of_neg (by simp [steers]), requested, ih hb,
            requests_of_not_steers _ steers, List.append_nil]

/-- If the same has been put into two pipelines before, then the same is asked for by the
same moves, as far as they steer. -/
theorem requested_congr (hp : new environment window fragment = .ok p)
    (hq : new environment' window' fragment' = .ok q) (same : p.input = q.input)
    (steers : ∀ move ∈ moves, move.steers = true) :
    (p.follow moves).input = (q.follow moves).input ∧ p.requested moves = q.requested moves := by
  induction moves with
  | nil => exact ⟨same, rfl⟩
  | cons move before ih =>
      obtain ⟨here, rest⟩ := List.forall_mem_cons.mp steers
      obtain ⟨input, requested⟩ := ih rest
      have hb : Move.halt ∉ before := by
        intro mem
        cases rest _ mem
      have off : (p.follow before).loop = .off ↔ (q.follow before).loop = .off := by
        rw [off_follow hp hb, off_follow hq hb]
      refine ⟨input_after_congr input here, ?_⟩
      rw [Pipeline.requested, Pipeline.requested, requested, requests_congr input off]

/-- As long as no job is done, what was asked for is what is in the queue. -/
theorem queue_follow (h : new environment window fragment = .ok p)
    (steers : ∀ move ∈ moves, move.steers = true) :
    (p.follow moves).queue = p.requested moves := by
  induction moves with
  | nil =>
      obtain ⟨_, _, rfl⟩ := new_eq_ok h
      rfl
  | cons move before ih =>
      obtain ⟨here, rest⟩ := List.forall_mem_cons.mp steers
      have queue : ((p.follow before).after move).queue = _ :=
        queue_after (by rintro rfl; cases here) (by rintro rfl; cases here)
      rw [follow, requested, queue, ih rest]

end Pipeline

end Playground
