import Mathlib.Data.List.Chain
import Playground.Debouncer.Timeline
import Playground.Proofs.Clockwork

/-!
# The life of a debouncer

What is done to a debouncer comes in batches, each of them followed by all that it
makes possible at once. Time passes only in between, from timer to timer. So a value
that is due is given out before anything else is done.

All that matters about a debouncer can be told from what happened last. A value is held
back exactly if that was a push. The signal is down if it was a push from outside. It
is not if the receiver pushed, because the signal for the value that the receiver was
given comes after that.
-/

namespace Playground.Timeline

open Clockwork

variable {α : Type} {window : Nat} {receiver : Behaviour α} {t u : Timeline α}

/-! ## Courses -/

/-- What can be done to a debouncer. -/
inductive Act (α : Type) where
  | push (value : α)
  | cancel
  | wait
deriving DecidableEq, Repr

/-- Does something to a debouncer. -/
def act (t : Timeline α) : Act α → Timeline α
  | .push value => t.push value
  | .cancel => t.cancel
  | .wait => t.wait

/-- A new debouncer with a window of this length, and its receiver. -/
def begun (window : Nat) (receiver : Behaviour α) : Timeline α :=
  { receiver, debouncer := { window } }

/-- What comes of batches of acts and of time that passes, wherever all comes to rest in
between. -/
inductive Course (window : Nat) (receiver : Behaviour α) : Timeline α → Prop where
  | begun : Course window receiver (begun window receiver)
  | acts {t u : Timeline α} (before : Course window receiver t) (batch : List (Act α))
      (drained : Settles (batch.foldl act t) u) : Course window receiver u
  | pass {t u : Timeline α} (before : Course window receiver t) (ms : Nat)
      (passed : Passes (t.now + ms) t u) : Course window receiver u

/-! ## What is known from what happened -/

/-- One thing may happen right after another one: a value is given out only at the end of its
window, and only after it was pushed. -/
def Follows (window : Nat) : Nat × Happening α → Nat × Happening α → Prop
  | (time, .pushed _ value), (later, .emitted given) => given = value ∧ later = time + window
  | (_, .cancelled), (_, .emitted _) | (_, .emitted _), (_, .emitted _) => False
  | (time, _), (later, _) => time ≤ later

/-- What is held back after the latest happening. -/
def heldAfter (window : Nat) : Option (Nat × Happening α) → Option (Nat × α)
  | some (time, .pushed _ value) => some (time + window, value)
  | _ => none

/-- Whether the signal is up after the latest happening. -/
def idleAfter : Option (Nat × Happening α) → Bool
  | some (_, .pushed false _) => false
  | _ => true

/-- What has happened is in order, and it tells what is held back. -/
structure Recorded (window : Nat) (t : Timeline α) : Prop where
  given : t.debouncer.window = window
  begins : ∀ first ∈ t.happened.head?, emission? first = none
  chain : t.happened.IsChain (Follows window)
  past : ∀ last ∈ t.happened.getLast?, last.1 ≤ t.now
  held : t.debouncer.held = heldAfter window t.happened.getLast?
  punctual : ∀ entry ∈ t.debouncer.held, t.now ≤ entry.1

/-- Whoever still waits is waiting for the signal, or there is a turn for it. -/
def Attended (t : Timeline α) : Prop :=
  ∀ i, t.waiters[i]? = some false →
    i ∈ t.debouncer.waiting ∨ .start i ∈ t.turns ∨ .resume i ∈ t.turns

/-- What has happened tells everything. -/
structure Sound (window : Nat) (t : Timeline α) : Prop extends Recorded window t where
  idle : t.debouncer.idle = idleAfter t.happened.getLast?
  waiting : t.debouncer.idle = true → t.debouncer.waiting = []
  attended : t.Attended

theorem Follows.le {first second : Nat × Happening α} (h : Follows window first second) :
    first.1 ≤ second.1 := by
  obtain ⟨time, what⟩ := first
  obtain ⟨later, next⟩ := second
  cases what with
  | pushed =>
      cases next with
      | emitted => exact h.2 ▸ Nat.le_add_right _ _
      | pushed | cancelled => exact h
  | cancelled | emitted =>
      cases next with
      | emitted => exact h.elim
      | pushed | cancelled => exact h

theorem follows_of_le {first second : Nat × Happening α} (act : emission? second = none)
    (le : first.1 ≤ second.1) : Follows window first second := by
  obtain ⟨time, what⟩ := first
  obtain ⟨later, next⟩ := second
  cases next with
  | emitted => cases act
  | pushed | cancelled => cases what <;> exact le

/-! ## What one happening changes -/

theorem getLast?_note (t : Timeline α) (what : Happening α) :
    (t.note what).happened.getLast? = some (t.now, what) :=
  List.getLast?_concat

/-- Something else happens that fits. -/
theorem Recorded.next (r : Recorded window t) {what : Happening α}
    (happened : u.happened = t.happened ++ [(t.now, what)]) (now : u.now = t.now)
    (same : u.debouncer.window = t.debouncer.window)
    (begins : t.happened = [] → emission? (t.now, what) = none)
    (follows : ∀ last ∈ t.happened.getLast?, Follows window last (t.now, what))
    (held : u.debouncer.held = heldAfter window (some (t.now, what))) :
    Recorded window u where
  given := same.trans r.given
  begins first mem := by
    rw [happened] at mem
    cases before : t.happened with
    | nil =>
        rw [before] at mem
        cases mem
        exact begins before
    | cons entry rest =>
        rw [before] at mem
        exact r.begins first (before ▸ mem)
  chain := by
    rw [happened, List.isChain_append]
    refine ⟨r.chain, List.isChain_singleton _, fun last hl next hn => ?_⟩
    cases hn
    exact follows last hl
  past last mem := by
    rw [happened, List.getLast?_concat] at mem
    cases mem
    exact Nat.le_of_eq now.symm
  held := by rw [held, happened, List.getLast?_concat]
  punctual entry mem := by
    rw [held] at mem
    cases what with
    | pushed =>
        cases mem
        exact now ▸ Nat.le_add_right _ _
    | cancelled | emitted => cases mem

/-- A push or a cancellation always fits. -/
theorem Recorded.act (r : Recorded window t) {what : Happening α}
    (happened : u.happened = t.happened ++ [(t.now, what)]) (now : u.now = t.now)
    (same : u.debouncer.window = t.debouncer.window) (isAct : emission? (t.now, what) = none)
    (held : u.debouncer.held = heldAfter window (some (t.now, what))) : Recorded window u :=
  r.next happened now same (fun _ => isAct) (fun last mem => follows_of_le isAct (r.past last mem))
    held

theorem Recorded.pushBy (r : Recorded window t) (byReceiver : Bool) (value : α) :
    Recorded window (t.pushBy byReceiver value) := by
  refine r.act rfl rfl rfl rfl ?_
  rw [← r.given]
  rfl

theorem Recorded.cancel (r : Recorded window t) : Recorded window t.cancel :=
  r.act rfl rfl rfl rfl rfl

/-! ## Those who wait -/

/-- Those who are released get turns. -/
theorem Attended.signal (a : t.Attended) {d : Debouncer α Nat}
    (same : d.waiting = t.debouncer.waiting) : (t.release d.signal).Attended := by
  intro i unfinished
  refine .inr ?_
  show .start i ∈ t.turns ++ d.waiting.map Turn.resume ∨
    .resume i ∈ t.turns ++ d.waiting.map Turn.resume
  rcases a i unfinished with waiting | start | resume
  · exact .inr (List.mem_append_right _ (List.mem_map_of_mem (same ▸ waiting)))
  · exact .inl (List.mem_append_left _ start)
  · exact .inr (List.mem_append_left _ resume)

theorem Attended.cancel (a : t.Attended) : t.cancel.Attended :=
  Attended.signal (t := t) (d := { t.debouncer with held := none }) a rfl

theorem Attended.wait (a : t.Attended) : t.wait.Attended := by
  intro i unfinished
  have unfinished : (t.waiters ++ [false])[i]? = some false := unfinished
  show i ∈ t.debouncer.waiting ∨ .start i ∈ t.turns ++ [.start t.waiters.length] ∨
    .resume i ∈ t.turns ++ [.start t.waiters.length]
  rw [List.getElem?_append] at unfinished
  split at unfinished
  · rcases a i unfinished with waiting | start | resume
    · exact .inl waiting
    · exact .inr (.inl (List.mem_append_left _ start))
    · exact .inr (.inr (List.mem_append_left _ resume))
  · next behind =>
      obtain rfl : i = t.waiters.length := by
        have := (List.getElem?_eq_some_iff.mp unfinished).1
        simp only [List.length_singleton] at this
        omega
      exact .inr (.inl (List.mem_append_right _ (List.mem_singleton_self _)))

/-- One who starts to wait is done if the signal is up. -/
theorem take_start (t : Timeline α) (waiter : Nat) : t.take (.start waiter) =
    if t.debouncer.idle then t.finish waiter
    else { t with
      debouncer := { t.debouncer with waiting := t.debouncer.waiting ++ [waiter] } } := by
  by_cases up : t.debouncer.idle = true
  · simp only [take, Debouncer.await?, if_pos up]
  · simp only [take, Debouncer.await?, if_neg up]

/-- One who takes a turn is done, or waits for the signal. -/
theorem Attended.take {turn : Turn} {turns : List Turn} (a : t.Attended)
    (line : t.turns = turn :: turns) : ({ t with turns }.take turn).Attended := by
  have finish (i waiter : Nat) (unfinished : (t.waiters.set waiter true)[i]? = some false) :
      i ≠ waiter ∧ t.waiters[i]? = some false := by
    rw [List.getElem?_set] at unfinished
    split at unfinished
    · split at unfinished <;> cases unfinished
    · next other => exact ⟨Ne.symm other, unfinished⟩
  -- Any other turn is still to be taken.
  have other {i : Nat} {later : Turn} (mem : later ∈ t.turns) (ne : later ≠ turn) :
      later ∈ turns := by
    rw [line] at mem
    exact (List.mem_cons.mp mem).resolve_left ne
  cases turn with
  | resume waiter =>
      intro i unfinished
      obtain ⟨ne, unfinished⟩ := finish i waiter unfinished
      rcases a i unfinished with waiting | start | resume
      · exact .inl waiting
      · exact .inr (.inl (other (i := i) start nofun))
      · exact .inr (.inr (other (i := i) resume fun same => ne (Turn.resume.inj same)))
  | start waiter =>
      rw [take_start]
      split
      · intro i unfinished
        obtain ⟨ne, unfinished⟩ := finish i waiter unfinished
        rcases a i unfinished with waiting | start | resume
        · exact .inl waiting
        · exact .inr (.inl (other (i := i) start fun same => ne (Turn.start.inj same)))
        · exact .inr (.inr (other (i := i) resume nofun))
      · intro i unfinished
        rcases a i unfinished with waiting | start | resume
        · exact .inl (List.mem_append_left _ waiting)
        · by_cases same : i = waiter
          · exact .inl (List.mem_append_right _ (List.mem_singleton.mpr same))
          · exact .inr (.inl (other (i := i) start fun h => same (Turn.start.inj h)))
        · exact .inr (.inr (other (i := i) resume nofun))

/-! ## Acts and steps -/

theorem sound_begun : Sound window (begun window receiver) where
  given := rfl
  begins := nofun
  chain := List.isChain_nil
  past := nofun
  held := rfl
  punctual := nofun
  idle := rfl
  waiting _ := rfl
  attended := nofun

theorem Sound.push (s : Sound window t) (value : α) : Sound window (t.push value) where
  toRecorded := s.toRecorded.pushBy false value
  idle := (congrArg idleAfter (getLast?_note t (.pushed false value))).symm
  waiting up := absurd up Bool.false_ne_true
  attended := s.attended

theorem Sound.cancel (s : Sound window t) : Sound window t.cancel where
  toRecorded := s.toRecorded.cancel
  idle := (congrArg idleAfter (getLast?_note t .cancelled)).symm
  waiting _ := rfl
  attended := s.attended.cancel

theorem Sound.wait (s : Sound window t) : Sound window t.wait :=
  { s with attended := s.attended.wait }

theorem Sound.act (s : Sound window t) (a : Act α) : Sound window (t.act a) := by
  cases a with
  | push value => exact s.push value
  | cancel => exact s.cancel
  | wait => exact s.wait

theorem Sound.acts (s : Sound window t) (batch : List (Act α)) :
    Sound window (batch.foldl Timeline.act t) :=
  List.foldlRecOn batch Timeline.act s fun _ s a _ => s.act a

theorem Sound.clock (s : Sound window t) {now : Nat} (later : t.now ≤ now)
    (next : ∀ due ∈ t.debouncer.due?, now ≤ due) : Sound window { t with now } :=
  { s with
    past := fun last mem => Nat.le_trans (s.past last mem) later
    punctual := fun _ mem => next _ (Option.mem_map_of_mem Prod.fst mem) }

theorem Sound.take {turn : Turn} {turns : List Turn} (s : Sound window t)
    (line : t.turns = turn :: turns) : Sound window ({ t with turns }.take turn) := by
  have attended := s.attended.take line
  cases turn with
  | resume waiter => exact { s with attended }
  | start waiter =>
      have taken := take_start { t with turns } waiter
      by_cases up : t.debouncer.idle = true
      · rw [taken.trans (if_pos up)] at attended ⊢
        exact { s with attended }
      · rw [taken.trans (if_neg up)] at attended ⊢
        exact { s with waiting := fun h => absurd h up, attended }

/-! ## A value is given out -/

/-- A receiver has been given a value. Whether the signal is up says nothing now, but it will go up. -/
structure Receiving (window : Nat) (t : Timeline α) : Prop extends Recorded window t where
  idle : idleAfter t.happened.getLast? = true
  fresh : ∀ last ∈ t.happened.getLast?, last.1 = t.now
  attended : t.Attended

theorem Receiving.react (r : Receiving window t) (reaction : Reaction α) :
    Receiving window (t.react reaction) := by
  cases reaction with
  | push value =>
      have last := getLast?_note t (.pushed true value)
      refine ⟨r.toRecorded.pushBy true value, congrArg idleAfter last, fun entry mem => ?_,
        r.attended⟩
      cases last.symm.trans mem
      rfl
  | cancel =>
      have last := getLast?_note t .cancelled
      refine ⟨r.toRecorded.cancel, congrArg idleAfter last, fun entry mem => ?_,
        r.attended.cancel⟩
      cases last.symm.trans mem
      rfl

/-- Whatever the receiver does, the signal is given afterwards. -/
theorem Receiving.signal (r : Receiving window t) :
    Sound window (t.release t.debouncer.signal) :=
  { r with
    idle := r.idle.symm
    waiting := fun _ => rfl
    attended := r.attended.signal rfl }

/-- What comes of giving a value to the receiver. -/
theorem receive_eq (t : Timeline α) (value : α) : ∃ (reactions : List (Reaction α))
    (log : List LogRecord), t.receive value =
      { reactions.foldl react (t.note (.emitted value)) with log } := by
  unfold receive
  simp only []
  split
  · exact ⟨_, _, rfl⟩
  · exact ⟨_, _, rfl⟩

/-- The value that is held back is due, and it was pushed last. -/
theorem Sound.due (s : Sound window t) {time : Nat} {value : α}
    (held : t.debouncer.held = some (time, value)) (due : time ≤ t.now) :
    ∃ pushed byReceiver, t.happened.getLast? = some (pushed, .pushed byReceiver value) ∧
      t.now = pushed + window := by
  have punctual := s.punctual _ held
  rw [s.held] at held
  cases last : t.happened.getLast? with
  | none =>
      rw [last] at held
      cases held
  | some entry =>
      obtain ⟨pushed, what⟩ := entry
      rw [last] at held
      cases what with
      | pushed byReceiver =>
          cases held
          exact ⟨pushed, byReceiver, rfl, Nat.le_antisymm punctual due⟩
      | cancelled | emitted => cases held

/-- The value that is due is given to the receiver. -/
theorem Sound.receiving (s : Sound window t) {time : Nat} {value : α}
    (held : t.debouncer.held = some (time, value)) (due : time ≤ t.now) :
    Receiving window
      (({ t with debouncer := { t.debouncer with held := none } } : Timeline α).note
        (.emitted value)) where
  toRecorded := by
    obtain ⟨pushed, byReceiver, last, now⟩ := s.due held due
    refine @Recorded.next _ _ _ _ s.toRecorded (.emitted value) rfl rfl rfl (fun none => ?_)
      (fun entry mem => ?_) rfl
    · rw [none] at last
      cases last
    · rw [last] at mem
      cases mem
      exact ⟨rfl, now⟩
  idle := congrArg idleAfter (getLast?_note t (.emitted value))
  fresh last mem := by
    cases (getLast?_note t (.emitted value)).symm.trans mem
    rfl
  attended := s.attended

/-- What happens last when a value is given out happens at that time. -/
theorem Sound.fire (s : Sound window t) (h : t.fire? = some u) :
    Sound window u ∧ ∀ last ∈ u.happened.getLast?, last.1 = u.now := by
  obtain ⟨⟨value, debouncer⟩, taken, rfl⟩ := Option.map_eq_some_iff.mp h
  unfold Debouncer.take? at taken
  split at taken
  · next time value held =>
      split at taken
      · next due =>
          cases taken
          obtain ⟨reactions, log, eq⟩ := receive_eq
            ({ t with debouncer := { t.debouncer with held := none } } : Timeline α) value
          have received := List.foldlRecOn reactions react (s.receiving held due)
            fun _ r reaction _ => r.react reaction
          simp only [eq]
          exact ⟨Receiving.signal { received with }, received.fresh⟩
      · cases taken
  · cases taken

theorem now_foldl_react (t : Timeline α) (reactions : List (Reaction α)) :
    (reactions.foldl react t).now = t.now :=
  List.foldlRecOn reactions react (motive := fun u => u.now = t.now) rfl
    fun _ same reaction _ => by
      cases reaction with
      | push | cancel => exact same

theorem take_frame (t : Timeline α) (turn : Turn) :
    (t.take turn).debouncer.held = t.debouncer.held ∧ (t.take turn).now = t.now ∧
      (t.take turn).turns = t.turns := by
  cases turn with
  | resume => exact ⟨rfl, rfl, rfl⟩
  | start waiter =>
      rw [take_start]
      split <;> exact ⟨rfl, rfl, rfl⟩

/-- A step takes no time. -/
theorem Sound.step (s : Sound window t) (h : step? t = some u) :
    Sound window u ∧ u.now = t.now := by
  have h : t.step? = some u := h
  unfold Timeline.step? at h
  split at h
  · next line =>
      cases h
      exact ⟨s.take line, (take_frame _ _).2.1⟩
  · refine ⟨(s.fire h).1, ?_⟩
    obtain ⟨⟨value, debouncer⟩, -, rfl⟩ := Option.map_eq_some_iff.mp h
    obtain ⟨reactions, log, eq⟩ := receive_eq ({ t with debouncer } : Timeline α) value
    simp only [eq]
    exact now_foldl_react _ reactions

theorem Sound.settles (s : Sound window t) (settled : Settles t u) :
    Sound window u ∧ u.now = t.now :=
  settled.keeps (motive := fun u => Sound window u ∧ u.now = t.now)
    (fun _ _ next ⟨s, now⟩ => ⟨(s.step next).1, (s.step next).2.trans now⟩) ⟨s, rfl⟩

theorem Sound.passes {target : Nat} (s : Sound window t) (ahead : t.now ≤ target)
    (passed : Passes target t u) : Sound window u := by
  induction passed with
  | @timer t _ _ time due le settled _ ih =>
      have later : t.now ≤ time := by
        obtain ⟨entry, held, rfl⟩ := Option.map_eq_some_iff.mp due
        exact s.punctual entry held
      obtain ⟨s, now⟩ := (s.clock later fun next hn => by
        rw [Option.mem_unique hn due]).settles settled
      exact ih s (now ▸ le)
  | last next settled =>
      exact ((s.clock ahead fun time due => Nat.le_of_lt (next time due)).settles settled).1

/-- What has happened tells everything in every course, whatever the receiver does. -/
theorem Course.sound (course : Course window receiver t) : Sound window t := by
  induction course with
  | begun => exact sound_begun
  | acts _ batch drained ih => exact ((ih.acts batch).settles drained).1
  | pass _ ms passed ih => exact ih.passes (Nat.le_add_right _ ms) passed

theorem Course.still (course : Course window receiver t) : step? t = none := by
  cases course with
  | begun => rfl
  | acts _ _ drained => exact drained.still
  | pass _ _ passed => exact passed.still

end Playground.Timeline
