import Playground.Proofs.Debouncer.Course

/-!
# What a debouncer gives out

A value that was pushed is given out at the end of its window, unless a push or a
cancellation comes before that. What is given out is compared with a list that is made
from what has happened by this rule alone. The receiver has no say in it but by its own
pushes and cancellations, which count like all others.

Where the window is longer than nothing, a debouncer always comes to rest. With no
window a receiver may answer itself forever at the same time, and then it does not.
-/

namespace Playground.Timeline

open Clockwork

variable {α : Type} {window now : Nat} {receiver : Behaviour α} {t u : Timeline α}

/-! ## The rule -/

/-- A push or a cancellation comes next, so what was pushed right before is never given out. -/
def Superseded : List (Nat × Happening α) → Prop
  | (_, .pushed _ _) :: _ | (_, .cancelled) :: _ => True
  | (_, .emitted _) :: _ | [] => False

instance : DecidablePred (Superseded (α := α))
  | (_, .pushed _ _) :: _ | (_, .cancelled) :: _ => .isTrue trivial
  | (_, .emitted _) :: _ | [] => .isFalse id

/-- The values whose windows are over by now, each with the end of its window, but for those after
which a push or a cancellation came sooner. -/
def standing (window now : Nat) : List (Nat × Happening α) → List (Nat × α)
  | [] => []
  | (time, .pushed _ value) :: later =>
    if Superseded later ∨ now < time + window then standing window now later
    else (time + window, value) :: standing window now later
  | _ :: later => standing window now later

/-- A push is the last thing that has happened: it was neither given out nor taken back. -/
def Holding (happened : List (Nat × Happening α)) : Prop :=
  ∃ before time byReceiver value, happened = before ++ [(time, .pushed byReceiver value)]

theorem standing_pushed (window now time : Nat) (byReceiver : Bool) (value : α)
    (later : List (Nat × Happening α)) :
    standing window now ((time, .pushed byReceiver value) :: later) =
      if Superseded later ∨ now < time + window then standing window now later
      else (time + window, value) :: standing window now later :=
  rfl

/-- What is given out after something is what the rule says of it. -/
theorem standing_cons {entry : Nat × Happening α} {later : List (Nat × Happening α)}
    (follows : ∀ next ∈ later.head?, Follows window entry next)
    (past : ∀ next ∈ later.head?, next.1 ≤ now)
    (early : later = [] → ∀ held ∈ heldAfter window (some entry), now < held.1) :
    standing window now (entry :: later) =
      (later.head?.bind emission?).toList ++ standing window now later := by
  obtain ⟨time, what⟩ := entry
  cases later with
  | nil =>
      cases what with
      | pushed byReceiver value =>
          rw [standing_pushed, if_pos (.inr (early rfl _ rfl))]
          rfl
      | cancelled | emitted => rfl
  | cons next rest =>
      obtain ⟨sooner, also⟩ := next
      have follows := follows _ rfl
      have elapsed : sooner ≤ now := past _ rfl
      cases what with
      | pushed byReceiver value =>
          cases also with
          | pushed | cancelled =>
              rw [standing_pushed, if_pos (.inl trivial)]
              rfl
          | emitted given =>
              obtain ⟨rfl, rfl⟩ := follows
              have stands : ¬ (Superseded ((time + window, .emitted given) :: rest) ∨
                  now < time + window) := not_or.mpr ⟨id, Nat.not_lt.mpr elapsed⟩
              rw [standing_pushed, if_neg stands]
              rfl
      | cancelled | emitted =>
          cases also with
          | pushed | cancelled => rfl
          | emitted => exact follows.elim

/-- The first entry of a chain may be out of place, but what comes after it follows the rule. -/
theorem filterMap_emission?_eq {happened : List (Nat × Happening α)}
    (chain : happened.IsChain (Follows window)) (past : ∀ entry ∈ happened, entry.1 ≤ now)
    (early : ∀ held ∈ heldAfter window happened.getLast?, now < held.1) :
    happened.filterMap emission? =
      (happened.head?.bind emission?).toList ++ standing window now happened := by
  induction happened with
  | nil => rfl
  | cons entry later ih =>
      obtain ⟨follows, chain⟩ := List.isChain_cons.mp chain
      obtain ⟨-, past⟩ := List.forall_mem_cons.mp past
      have rest := ih chain past fun held mem => by
        cases later with
        | nil => cases mem
        | cons => exact early held mem
      have after := standing_cons follows (fun next mem => past next (List.mem_of_mem_head? mem))
        fun none => by rwa [none] at early
      rw [after, ← rest, List.filterMap_cons]
      show _ = (emission? entry).toList ++ _
      cases emission? entry <;> rfl

theorem Recorded.inOrder (r : Recorded window t) :
    t.happened.Pairwise fun a b => a.1 ≤ b.1 :=
  List.isChain_iff_pairwise.mp (r.chain.imp fun _ _ follows => follows.le)

theorem Recorded.le_now (r : Recorded window t) : ∀ entry ∈ t.happened, entry.1 ≤ t.now := by
  intro entry mem
  obtain ⟨before, last, split⟩ := List.eq_nil_or_concat' t.happened |>.resolve_left
    (List.ne_nil_of_mem mem)
  have late := r.past last (by rw [split]; exact List.getLast?_concat)
  have inOrder := r.inOrder
  rw [split] at mem inOrder
  rcases List.mem_append.mp mem with mem | mem
  · exact Nat.le_trans ((List.pairwise_append.mp inOrder).2.2 entry mem last
      (List.mem_singleton_self _)) late
  · rw [List.mem_singleton.mp mem]
    exact late

/-! ## Coming to rest -/

theorem fire?_eq_none_iff : t.fire? = none ↔ ∀ entry ∈ t.debouncer.held, t.now < entry.1 := by
  unfold fire? Debouncer.take?
  cases t.debouncer.held with
  | none => exact ⟨fun _ => nofun, fun _ => rfl⟩
  | some entry =>
      simp only [Option.map_eq_none_iff, Option.mem_def, Option.some.injEq, forall_eq',
        ite_eq_right_iff, reduceCtorEq, imp_false, Nat.not_le]

/-- Nothing is left to do if and only if all turns are taken and nothing is due. -/
theorem step?_eq_none_iff : step? t = none ↔
    t.turns = [] ∧ ∀ entry ∈ t.debouncer.held, t.now < entry.1 := by
  show t.step? = none ↔ _
  unfold Timeline.step?
  cases line : t.turns with
  | nil =>
      simp only [true_and]
      exact fire?_eq_none_iff
  | cons => exact ⟨nofun, fun h => nomatch h.1⟩

/-- All turns are taken, and then the value that is held back is given out if it is due. -/
theorem exists_settles_of_fire? {motive : Timeline α → Prop}
    (takes : ∀ (t : Timeline α) (turn : Turn) (turns : List Turn), t.turns = turn :: turns →
      motive t → motive ({ t with turns }.take turn))
    (fires : ∀ t u : Timeline α, motive t → t.fire? = some u → ∃ v, Settles u v)
    (start : motive t) : ∃ u, Settles t u := by
  generalize line : t.turns = turns
  induction turns generalizing t with
  | nil =>
      have step : step? t = t.fire? := by
        show t.step? = _
        unfold Timeline.step?
        rw [line]
      cases fired : t.fire? with
      | none => exact ⟨t, .rest (step.trans fired)⟩
      | some u =>
          obtain ⟨v, settled⟩ := fires t u start fired
          exact ⟨v, .step (step.trans fired) settled⟩
  | cons turn turns ih =>
      have step : step? t = some ({ t with turns }.take turn) := by
        show t.step? = _
        unfold Timeline.step?
        rw [line]
      obtain ⟨v, settled⟩ := ih (takes t turn turns line start) (take_frame _ turn).2.2
      exact ⟨v, .step step settled⟩

/-- A debouncer with a window comes to rest, whatever its receiver does. -/
theorem Sound.exists_settles (s : Sound window t) (some : 0 < window) : ∃ u, Settles t u := by
  refine exists_settles_of_fire? (motive := Sound window)
    (fun t turn turns line s => s.take line) (fun t u s fired => ?_) s
  obtain ⟨s, fresh⟩ := s.fire fired
  -- What the receiver pushed is not due at once.
  have early : ∀ entry ∈ u.debouncer.held, u.now < entry.1 := by
    intro entry held
    rw [s.held] at held
    cases last : u.happened.getLast? with
    | none =>
        rw [last] at held
        cases held
    | some happening =>
        obtain ⟨time, what⟩ := happening
        have late : time = u.now := fresh _ last
        rw [last] at held
        cases what with
        | pushed =>
            cases held
            show u.now < time + window
            omega
        | cancelled | emitted => cases held
  refine exists_settles_of_fire?
    (motive := fun t => ∀ entry ∈ t.debouncer.held, t.now < entry.1) (fun t turn turns _ early => ?_)
    (fun t u early fired => ?_) early
  · obtain ⟨held, now, -⟩ := take_frame { t with turns } turn
    rw [held, now]
    exact early
  · cases (fire?_eq_none_iff.mpr early).symm.trans fired

/-! ## The law -/

theorem Recorded.isPending_iff (r : Recorded window t) :
    t.debouncer.isPending = true ↔ Holding t.happened := by
  unfold Debouncer.isPending
  rw [r.held]
  rcases List.eq_nil_or_concat' t.happened with none | ⟨before, ⟨time, what⟩, split⟩
  · rw [none]
    exact ⟨nofun, fun ⟨before, _, _, _, h⟩ => absurd h.symm (List.concat_ne_nil _ _)⟩
  · rw [split, List.getLast?_concat]
    constructor
    · intro pending
      cases what with
      | pushed byReceiver value => exact ⟨before, time, byReceiver, value, rfl⟩
      | cancelled | emitted => cases pending
    · rintro ⟨_, _, _, _, same⟩
      cases (List.append_inj' same rfl).2
      rfl

/-- The signal is up where nothing is held back. -/
theorem idleAfter_of_heldAfter {last : Option (Nat × Happening α)}
    (none : heldAfter window last = none) : idleAfter last = true := by
  cases last with
  | none => rfl
  | some entry =>
      obtain ⟨time, what⟩ := entry
      cases what with
      | pushed => cases none
      | cancelled | emitted => rfl

/-- What comes of the life of a debouncer. -/
structure Debounces (window : Nat) (t : Timeline α) : Prop where
  /-- The values that were given out are the ones that the rule says, at the times that it says,
  each as often as it says. -/
  emissions : t.emitted = standing window t.now t.happened
  inOrder : t.emitted.Pairwise fun a b => a.1 ≤ b.1
  /-- At any time, before the debouncer comes to rest or after, a value is held back exactly if the
  last push was neither given out nor taken back. -/
  pending : ∀ batch : List (Act α), (batch.foldl act t).debouncer.isPending = true ↔
    Holding (batch.foldl act t).happened
  waited : t.debouncer.isPending = false → ∀ free ∈ t.waiters, free = true
  /-- Only where there is no window may there be no rest. -/
  rests : 0 < window → ∀ batch : List (Act α), ∃ u, Settles (batch.foldl act t) u

/-- In every course, whatever the receiver does, the values that were pushed are given out at the
end of their windows if no push or cancellation came sooner, and no others are. -/
theorem debounces (course : Course window receiver t) : Debounces window t := by
  have s := course.sound
  obtain ⟨line, early⟩ := step?_eq_none_iff.mp course.still
  have emissions : t.emitted = standing window t.now t.happened := by
    have eq := filterMap_emission?_eq s.chain s.le_now (s.held ▸ early)
    have begins : t.happened.head?.bind emission? = none := Option.bind_eq_none_iff.mpr s.begins
    rwa [begins] at eq
  refine ⟨emissions, ?_, fun batch => (s.acts batch).isPending_iff, fun none free mem => ?_,
    fun some batch => (s.acts batch).exists_settles some⟩
  · refine List.pairwise_filterMap.mpr (s.inOrder.imp ?_)
    rintro ⟨time, what⟩ ⟨later, also⟩ le
    cases what <;> cases also <;> rintro _ ⟨⟩ _ ⟨⟩
    exact le
  · -- Whoever still waits would have a turn, or wait for a signal that is up.
    cases free with
    | true => rfl
    | false =>
        obtain ⟨i, unfinished⟩ := List.mem_iff_getElem?.mp mem
        have up : t.debouncer.idle = true := by
          rw [s.idle]
          exact idleAfter_of_heldAfter (s.held ▸ Option.not_isSome_iff_eq_none.mp (ne_true_of_eq_false none))
        rcases s.attended i unfinished with waiting | start | resume
        · rw [s.waiting up] at waiting
          cases waiting
        · rw [line] at start
          cases start
        · rw [line] at resume
          cases resume

/-- A receiver that answers 1 by 2, breaks when it is given 2, and cancels when it is given 3. -/
def restless : Receiver Nat where
  complaint? value := if value = 2 then some (text "no") else none
  answer? value := if value = 1 then some 2 else none
  cancels value := value = 3

/-- One value is replaced in a batch and one is taken back, and the others are given out. -/
theorem debounces_restless :
    ∃ t : Timeline Nat, Course 100 restless t ∧ Debounces 100 t ∧
      t.emitted = [(100, 1), (200, 2), (550, 3)] := by
  have replaced : Course 100 restless _ :=
    Course.begun.acts [.push 0, .push 1, .wait] (settles_settleWithin 9 rfl)
  have answered := replaced.pass 250 (.timer (n := 100) rfl (by decide)
    (settles_settleWithin 9 rfl) (.timer (n := 200) rfl (by decide) (settles_settleWithin 9 rfl)
      (.last nofun (settles_settleWithin 9 rfl))))
  have dropped := answered.acts [.push 4, .cancel] (settles_settleWithin 9 rfl)
  have quiet := dropped.pass 200 (.last nofun (settles_settleWithin 9 rfl))
  have pushed := quiet.acts [.push 3, .wait] (settles_settleWithin 9 rfl)
  have given := pushed.pass 200 (.timer (n := 550) rfl (by decide) (settles_settleWithin 9 rfl)
    (.last nofun (settles_settleWithin 9 rfl)))
  exact ⟨_, given, debounces given, rfl⟩

end Playground.Timeline
