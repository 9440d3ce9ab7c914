import Playground.Proofs.Pipeline.Requests

/-!
# When it is asked for

An edit is given out by the clock, at the time at which it is due, and everything else
that is asked for is asked for by someone who acts. So what is asked for follows from who
did what at which time. Only when someone comes while an edit is due it is also to be
known which of the two was first.

A course in which the clock goes forward is, without what does not steer, as good as its
itinerary: the clock is set to the time of the next visit, an edit that is due by then is
given out, and the visitor acts.
-/

namespace Playground

/-- Someone does something that steers. -/
structure Visit where
  time : Nat
  /-- Whether he comes before an edit that is due is given out. -/
  isFirst : Bool
  action : Action

namespace Pipeline

variable {p q : Pipeline} {moves : List Move}

/-- Whether the edit that is held back is due. -/
def isDue (p : Pipeline) : Bool :=
  match p.debouncer.held with
  | some (time, _) => time ≤ p.now
  | none => false

/-- The visits in a course, the latest first. -/
def visits (p : Pipeline) : List Move → List Visit
  | [] => []
  | .act action :: before =>
    if action.steers then
      ⟨(p.follow before).now, (p.follow before).isDue, action⟩ :: p.visits before
    else p.visits before
  | _ :: before => p.visits before

/-- When who came, and how late it is now. -/
def timetable (p : Pipeline) (moves : List Move) : List Visit × Nat × Bool :=
  (p.visits moves, (p.follow moves).now, (p.follow moves).isDue)

/-- The clock goes forward. -/
def Forward (p : Pipeline) : List Move → Prop
  | [] => True
  | .clock time :: before => p.Forward before ∧ (p.follow before).now ≤ time
  | _ :: before => p.Forward before

/-- What happens until someone comes, the latest first. -/
def arrival (time : Nat) (isFirst : Bool) : List Move :=
  if isFirst then [.clock time] else [.editDue, .clock time]

/-- The moves that are told by the visits, the latest first. -/
def itinerary : List Visit → List Move
  | [] => []
  | visit :: before =>
    .act visit.action :: (arrival visit.time visit.isFirst ++ itinerary before)

/-! ## Giving out an edit -/

theorem le_of_isDue (h : p.isDue = true) :
    ∃ time source, p.debouncer.held = some (time, source) ∧ time ≤ p.now := by
  unfold isDue at h
  split at h
  · next time source held => exact ⟨time, source, held, of_decide_eq_true h⟩
  · cases h

theorem isDue_of_le {time : Nat} {source : Text} (held : p.debouncer.held = some (time, source))
    (due : time ≤ p.now) : p.isDue = true := by
  unfold isDue
  rw [held]
  exact decide_eq_true due

theorem after_editDue_of_not_isDue (h : p.isDue = false) : p.after .editDue = p := by
  rcases p.editDue_cases with ⟨same, -, -⟩ | ⟨time, source, held, due, -, -⟩
  · exact same
  · rw [isDue_of_le held due] at h
    cases h

/-- An edit that has been given out is not held back any more. -/
theorem not_isDue_after_editDue (p : Pipeline) : (p.after .editDue).isDue = false := by
  rcases p.editDue_cases with ⟨same, -, early⟩ | ⟨time, source, -, -, -, gives⟩
  · rw [same]
    by_contra h
    obtain ⟨time, source, held, due⟩ := le_of_isDue (Bool.eq_true_of_not_eq_false h)
    exact Nat.not_le_of_lt (early time source held) due
  · rw [gives]
    unfold isDue trigger
    cases p.loop <;> rfl

theorem now_after_editDue (p : Pipeline) : (p.after .editDue).now = p.now := by
  rcases p.editDue_cases with ⟨same, -, -⟩ | ⟨time, source, -, -, -, gives⟩
  · rw [same]
  · rw [gives]
    unfold trigger
    cases p.loop <;> rfl

/-- It makes no difference whether an edit that was due is given out before the clock moves. -/
theorem editDue_clock {time due : Nat} {source : Text}
    (held : p.debouncer.held = some (due, source)) (now : due ≤ p.now) (later : p.now ≤ time) :
    (p.after .editDue).after (.clock time) = (p.after (.clock time)).after .editDue := by
  rcases p.editDue_cases with ⟨-, -, early⟩ | ⟨t, s, held', -, -, gives⟩
  · exact absurd now (Nat.not_le_of_lt (early due source held))
  · rcases (p.after (.clock time)).editDue_cases with ⟨-, -, early⟩ | ⟨t', s', held'', -, -, gives'⟩
    · exact absurd (Nat.le_trans now later) (Nat.not_le_of_lt (early due source held))
    · have same : some (t, s) = some (t', s') := held'.symm.trans held''
      cases same
      rw [gives, gives']
      simp only [after, trigger]
      cases p.loop <;> rfl

/-! ## The itinerary of a course -/

theorem follow_arrival (p : Pipeline) (time : Nat) (isFirst : Bool) :
    p.follow (arrival time isFirst) =
      if isFirst then p.after (.clock time) else (p.after (.clock time)).after .editDue := by
  cases isFirst <;> rfl

/-- Someone who is there need not arrive. -/
theorem follow_arrival_self (p : Pipeline) : p.follow (arrival p.now p.isDue) = p := by
  rw [follow_arrival]
  cases due : p.isDue with
  | true => rfl
  | false => exact after_editDue_of_not_isDue due

theorem follow_arrival_clock {base : Pipeline} (h : q = base.follow (arrival q.now q.isDue))
    {time : Nat} (forward : q.now ≤ time) :
    q.after (.clock time) = base.follow (arrival time (q.after (.clock time)).isDue) := by
  rw [follow_arrival] at h ⊢
  cases due : q.isDue with
  | true =>
      -- The edit has not been given out, and it is due at the later time too.
      obtain ⟨t, source, held, le⟩ := le_of_isDue due
      have still : (q.after (.clock time)).isDue = true :=
        isDue_of_le (p := q.after (.clock time)) held (Nat.le_trans le forward)
      rw [due, if_pos rfl] at h
      rw [still, if_pos rfl, h]
      rfl
  | false =>
      rw [due, if_neg (by simp)] at h
      rcases (base.after (.clock q.now)).editDue_cases with
        ⟨same, -, -⟩ | ⟨t, source, held, le, -, -⟩
      · have moved : q.after (.clock time) = base.after (.clock time) := by
          rw [h, same]
          rfl
        cases late : (q.after (.clock time)).isDue with
        | true => exact moved
        | false =>
            rw [if_neg (by simp), ← moved]
            exact (after_editDue_of_not_isDue late).symm
      · have gone : (q.after (.clock time)).isDue = false := by
          have none := not_isDue_after_editDue (base.after (.clock time))
          have moved := editDue_clock (p := base.after (.clock q.now)) held le forward
          rw [h]
          exact (congrArg isDue moved).trans none
        have moved := editDue_clock (p := base.after (.clock q.now)) held le forward
        rw [gone, if_neg (by simp)]
        exact (congrArg (fun r : Pipeline => r.after (.clock time)) h).trans moved

/-- A course in which everything steers ends as its itinerary does. -/
theorem follow_itinerary (steers : ∀ move ∈ moves, move.steers = true)
    (forward : p.Forward moves) : p.follow moves =
      p.follow (arrival (p.follow moves).now (p.follow moves).isDue ++ itinerary (p.visits moves)) := by
  induction moves with
  | nil => exact (follow_arrival_self p).symm.trans (follow_append p _ []).symm
  | cons move before ih =>
      obtain ⟨here, rest⟩ := List.forall_mem_cons.mp steers
      cases move with
      | act action =>
          have acts : action.steers = true := here
          have same := ih rest forward
          have arrived : p.follow (.act action :: before) = _ :=
            congrArg (fun r : Pipeline => r.after (.act action)) same
          simp only [visits, acts, if_true, itinerary]
          rw [follow_append]
          exact (follow_arrival_self _).symm.trans (congrArg (fun r : Pipeline => r.follow _) arrived)
      | clock time =>
          have same := ih rest forward.1
          rw [follow_append] at same ⊢
          exact follow_arrival_clock same forward.2
      | editDue =>
          have same := ih rest forward
          rw [follow_append] at same ⊢
          have gone : (p.follow (.editDue :: before)).isDue = false := not_isDue_after_editDue _
          have now : (p.follow (.editDue :: before)).now = (p.follow before).now :=
            now_after_editDue _
          rw [gone, now, show p.visits (.editDue :: before) = p.visits before from rfl,
            follow_arrival, if_neg (by simp)]
          rw [follow_arrival] at same
          cases due : (p.follow before).isDue with
          | true =>
              rw [due, if_pos rfl] at same
              exact congrArg (fun r : Pipeline => r.after .editDue) same
          | false =>
              rw [due, if_neg (by simp)] at same
              exact (after_editDue_of_not_isDue due).trans same
      | halt | job | answerDue => cases here

/-! ## The same visits -/

variable {environment environment' : Environment} {window window' : Int}
  {fragment fragment' : Text} {moves' : List Move}

theorem steers_itinerary {p : Pipeline} (moves : List Move) (time : Nat) (isFirst : Bool) :
    ∀ move ∈ arrival time isFirst ++ itinerary (p.visits moves), move.steers = true := by
  have arrives (time : Nat) (isFirst : Bool) : ∀ move ∈ arrival time isFirst, move.steers = true := by
    cases isFirst <;> simp [arrival, Move.steers]
  have goes : ∀ move ∈ itinerary (p.visits moves), move.steers = true := by
    induction moves with
    | nil => simp [visits, itinerary]
    | cons move before ih =>
        cases move with
        | act action =>
            cases acts : action.steers with
            | false =>
                simp only [visits, acts, Bool.false_eq_true, if_false]
                exact ih
            | true =>
                simp only [visits, acts, if_true, itinerary]
                refine List.forall_mem_cons.mpr ⟨acts, fun move mem => ?_⟩
                exact (List.mem_append.mp mem).elim (arrives _ _ move) (ih move)
        | _ => exact ih
  intro move mem
  exact (List.mem_append.mp mem).elim (arrives _ _ move) (goes move)

/-- The visits, and whether the clock goes forward, can be told without what does not steer. -/
theorem visits_filter (h : new environment window fragment = .ok p) (hm : .halt ∉ moves) :
    p.visits (moves.filter Move.steers) = p.visits moves ∧
      (p.Forward moves → p.Forward (moves.filter Move.steers)) := by
  induction moves with
  | nil => exact ⟨rfl, id⟩
  | cons move before ih =>
      have hb := List.not_mem_of_not_mem_cons hm
      obtain ⟨visits, forward⟩ := ih hb
      have same := input_follow h hb
      have now : (p.follow before).now = (p.follow (before.filter Move.steers)).now :=
        (congrArg Pipeline.now same :)
      have due : (p.follow before).isDue = (p.follow (before.filter Move.steers)).isDue :=
        (congrArg isDue same :)
      cases move with
      | act action =>
          cases acts : action.steers with
          | false =>
              rw [List.filter_cons_of_neg (by simp [Move.steers, acts])]
              simp only [Pipeline.visits, acts, Bool.false_eq_true, if_false]
              exact ⟨visits, forward⟩
          | true =>
              rw [List.filter_cons_of_pos (by simp [Move.steers, acts])]
              refine ⟨?_, forward⟩
              simp only [Pipeline.visits, acts, if_true, visits, now, due]
      | clock time =>
          rw [List.filter_cons_of_pos rfl]
          exact ⟨visits, fun hf => ⟨forward hf.1, now ▸ hf.2⟩⟩
      | editDue =>
          rw [List.filter_cons_of_pos rfl]
          exact ⟨visits, forward⟩
      | halt => exact absurd List.mem_cons_self hm
      | job | answerDue =>
          rw [List.filter_cons_of_neg (by simp [Move.steers])]
          exact ⟨visits, forward⟩

/-- What is asked for is what the itinerary asks for. -/
theorem requested_itinerary (h : new environment window fragment = .ok p) (hm : .halt ∉ moves)
    (forward : p.Forward moves) : p.requested moves = p.requested
      (arrival (p.follow moves).now (p.follow moves).isDue ++ itinerary (p.visits moves)) := by
  have steers : ∀ move ∈ moves.filter Move.steers, move.steers = true :=
    fun move mem => (List.mem_filter.mp mem).2
  obtain ⟨visits, forward'⟩ := visits_filter h hm
  have same := input_follow h hm
  have now : (p.follow moves).now = (p.follow (moves.filter Move.steers)).now :=
    (congrArg Pipeline.now same :)
  have due : (p.follow moves).isDue = (p.follow (moves.filter Move.steers)).isDue :=
    (congrArg isDue same :)
  rw [requested_filter h hm, ← queue_follow h steers, follow_itinerary steers (forward' forward),
    queue_follow h (steers_itinerary _ _ _), visits, ← now, ← due]

/-- If the same people come to two pipelines at the same times, the same is asked for. -/
theorem requested_eq_of_timetable (hp : new environment window fragment = .ok p)
    (hq : new environment' window' fragment' = .ok q) (same : p.input = q.input)
    (hm : .halt ∉ moves) (hm' : .halt ∉ moves') (forward : p.Forward moves)
    (forward' : q.Forward moves') (timetable : p.timetable moves = q.timetable moves') :
    p.requested moves = q.requested moves' := by
  simp only [Pipeline.timetable, Prod.mk.injEq] at timetable
  obtain ⟨visits, now, due⟩ := timetable
  rw [requested_itinerary hp hm forward, requested_itinerary hq hm' forward', ← visits, ← now, ← due]
  exact (requested_congr hp hq same (steers_itinerary _ _ _)).2

end Pipeline

end Playground
