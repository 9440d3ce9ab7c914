import Playground.Proofs.Debouncer.Emissions

/-!
# Waiting for a debouncer

Whoever waits is held up by the signal, not by the value that is held back. The two
agree but for one case: a value that the receiver pushed while it was given another one.
The signal that comes after the one it was given then says that nothing is held back,
and stays up until the next push.

So a receiver that never pushes is waited for as one would think.
-/

namespace Playground.Timeline

open Clockwork

variable {α : Type} {window : Nat} {receiver : Behaviour α} {t u : Timeline α}

/-- The last thing that has happened is a push by the receiver. -/
def Answered (happened : List (Nat × Happening α)) : Prop :=
  ∃ time value, happened.getLast? = some (time, .pushed true value)

/-! ## Where answers come from -/

/-- Every push by the receiver is one that it may make when it is given some values. -/
def Owned (receiver : Behaviour α) (t : Timeline α) : Prop :=
  t.receiver = receiver ∧ ∀ time value, (time, .pushed true value) ∈ t.happened →
    ∃ given, .push value ∈ (receiver.reception given).reactions

theorem Owned.note {what : Happening α} (o : Owned receiver t)
    (fits : ∀ value, what = .pushed true value →
      ∃ given, .push value ∈ (receiver.reception given).reactions) :
    Owned receiver (t.note what) := by
  refine ⟨o.1, fun time value mem => ?_⟩
  rcases List.mem_append.mp mem with mem | mem
  · exact o.2 time value mem
  · cases List.mem_singleton.mp mem
    exact fits value rfl

theorem Owned.react {reaction : Reaction α} {given : List (Nat × α)} (o : Owned receiver t)
    (mem : reaction ∈ (receiver.reception given).reactions) : Owned receiver (t.react reaction) := by
  cases reaction with
  | push value =>
      refine Owned.note (t := { t with debouncer := t.debouncer.push t.now value }) o ?_
      rintro _ ⟨⟩
      exact ⟨given, mem⟩
  | cancel => exact Owned.note (t := t.release t.debouncer.cancel) o nofun

theorem Owned.receive (o : Owned receiver t) (value : α) : Owned receiver (t.receive value) := by
  have noted : Owned receiver (t.note (.emitted value)) := o.note nofun
  have reacted := List.foldlRecOn (motive := Owned receiver)
    ((t.note (.emitted value)).receiver.reception (t.note (.emitted value)).emitted).reactions
    Timeline.react noted fun _ o reaction mem => o.react (noted.1 ▸ mem)
  unfold Timeline.receive
  simp only []
  split <;> exact reacted

theorem Owned.act (o : Owned receiver t) (a : Act α) : Owned receiver (t.act a) := by
  cases a with
  | push value =>
      exact Owned.note (t := { t with debouncer := t.debouncer.push t.now value }) o nofun
  | cancel => exact Owned.note (t := t.release t.debouncer.cancel) o nofun
  | wait => exact o

theorem Owned.step (o : Owned receiver t) (h : step? t = some u) : Owned receiver u := by
  have h : t.step? = some u := h
  unfold Timeline.step? at h
  split at h
  · next turn turns _ =>
      cases h
      cases turn with
      | resume => exact o
      | start waiter =>
          rw [take_start]
          split <;> exact o
  · obtain ⟨⟨value, debouncer⟩, -, rfl⟩ := Option.map_eq_some_iff.mp h
    exact Owned.receive (t := { t with debouncer }) o value

theorem Owned.settles (o : Owned receiver t) (settled : Settles t u) : Owned receiver u :=
  settled.keeps (fun _ _ next o => Owned.step o next) o

theorem Owned.passes {target : Nat} (o : Owned receiver t) (passed : Passes target t u) :
    Owned receiver u := by
  induction passed with
  | @timer t _ _ now _ _ settled _ ih => exact ih (Owned.settles (t := { t with now }) o settled)
  | @last t _ _ settled => exact Owned.settles (t := { t with now := target }) o settled

theorem Course.owned (course : Course window receiver t) : Owned receiver t := by
  induction course with
  | begun => exact ⟨rfl, nofun⟩
  | acts _ batch drained ih =>
      exact (List.foldlRecOn (motive := Owned receiver) batch Timeline.act ih
        fun _ o a _ => o.act a).settles drained
  | pass _ _ passed ih => exact ih.passes passed

/-- A receiver that never pushes never has its own push held back. -/
theorem Course.not_answered (course : Course window receiver t)
    (quiet : ∀ given value, .push value ∉ (receiver.reception given).reactions) :
    ¬ Answered t.happened := by
  rintro ⟨time, value, last⟩
  obtain ⟨given, mem⟩ := course.owned.2 time value (List.mem_of_getLast? last)
  exact quiet given value mem

/-! ## The signal -/

/-- Where a value is held back, the signal is up exactly if the receiver pushed the value. -/
theorem Sound.idle_iff (s : Sound window t) (pending : t.debouncer.isPending = true) :
    t.debouncer.idle = true ↔ Answered t.happened := by
  obtain ⟨before, time, byReceiver, value, split⟩ := s.isPending_iff.mp pending
  have last : t.happened.getLast? = some (time, .pushed byReceiver value) := by
    rw [split]
    exact List.getLast?_concat
  unfold Answered
  rw [s.idle, last]
  cases byReceiver with
  | true => exact iff_of_true rfl ⟨time, value, rfl⟩
  | false => exact iff_of_false Bool.false_ne_true nofun

/-- The one who starts to wait where all is at rest is served at once. -/
theorem settles_wait (line : t.turns = [])
    (early : ∀ entry ∈ t.debouncer.held, t.now < entry.1) :
    Settles t.wait (({ t with waiters := t.waiters ++ [false] } : Timeline α).take
      (.start t.waiters.length)) := by
  have next : step? t.wait = some (({ t with waiters := t.waiters ++ [false] } : Timeline α).take
      (.start t.waiters.length)) := by
    show t.wait.step? = _
    unfold Timeline.step? Timeline.wait
    rw [line]
    rfl
  obtain ⟨held, now, turns⟩ := take_frame
    ({ t with waiters := t.waiters ++ [false] } : Timeline α) (.start t.waiters.length)
  refine .step next (.rest (step?_eq_none_iff.mpr ⟨turns.trans line, ?_⟩))
  rw [held, now]
  exact early

/-- In every course, where a value is held back, one who starts to wait gets through at once if the
receiver pushed that value, and does not if the push came from outside. -/
theorem wait_gets_through_iff (course : Course window receiver t)
    (pending : t.debouncer.isPending = true) :
    ∃ (u : Timeline α) (free : Bool), Settles t.wait u ∧ u.now = t.now ∧
      u.debouncer.isPending = true ∧ u.waiters = t.waiters ++ [free] ∧
      (free = true ↔ Answered t.happened) := by
  have s := course.sound
  obtain ⟨line, early⟩ := step?_eq_none_iff.mp course.still
  have settled := settles_wait line early
  rw [take_start] at settled
  by_cases up : t.debouncer.idle = true
  · rw [if_pos up] at settled
    refine ⟨_, true, settled, rfl, pending, ?_, iff_of_true rfl ((s.idle_iff pending).mp up)⟩
    show (t.waiters ++ [false]).set t.waiters.length true = _
    rw [List.set_append_right _ _ (Nat.le_refl _), Nat.sub_self]
    rfl
  · rw [if_neg up] at settled
    exact ⟨_, false, settled, rfl, pending, rfl,
      iff_of_false Bool.false_ne_true fun answered => up ((s.idle_iff pending).mpr answered)⟩

/-- The receiver that is given 1 answers by 2. One who waits for 2 gets through, but one who waits
for 3, which comes from outside, does not. -/
theorem wait_gets_through_restless :
    (∃ t u : Timeline Nat, Course 100 restless t ∧ t.debouncer.held = some (200, 2) ∧
      Settles t.wait u ∧ u.waiters = [true]) ∧
    ∃ t u : Timeline Nat, Course 100 restless t ∧ t.debouncer.held = some (200, 3) ∧
      Settles t.wait u ∧ u.waiters = [false] := by
  have pushed : Course 100 restless _ :=
    Course.begun.acts [.push 1] (settles_settleWithin 9 rfl)
  have answered := pushed.pass 100 (.timer (n := 100) rfl (by decide)
    (settles_settleWithin 9 rfl) (.last (by rintro _ ⟨⟩; decide) (settles_settleWithin 9 rfl)))
  have replaced := answered.acts [.push 3] (settles_settleWithin 9 rfl)
  obtain ⟨u, free, settled, -, -, waiters, through⟩ := wait_gets_through_iff answered rfl
  obtain ⟨v, blocked, settled', -, -, waiters', through'⟩ := wait_gets_through_iff replaced rfl
  refine ⟨⟨_, u, answered, rfl, settled, ?_⟩, _, v, replaced, rfl, settled', ?_⟩
  · rw [waiters, through.mpr ⟨100, 2, rfl⟩]
    rfl
  · cases blocked with
    | false => exact waiters'
    | true =>
        obtain ⟨time, value, last⟩ := through'.mp rfl
        cases last

/-- It is not so that one who starts to wait where a value is held back never gets through. -/
theorem wait_not_always_blocked : ¬ ∀ (window : Nat) (receiver : Behaviour Nat)
    (t u : Timeline Nat), Course window receiver t → t.debouncer.isPending = true →
      Settles t.wait u → u.waiters[t.waiters.length]? = some false := by
  intro blocked
  have pushed : Course 100 restless _ :=
    Course.begun.acts [.push 1] (settles_settleWithin 9 rfl)
  have answered := pushed.pass 100 (.timer (n := 100) rfl (by decide)
    (settles_settleWithin 9 rfl) (.last (by rintro _ ⟨⟩; decide) (settles_settleWithin 9 rfl)))
  cases blocked _ _ _ _ answered rfl (settles_settleWithin 9 rfl)

end Playground.Timeline
