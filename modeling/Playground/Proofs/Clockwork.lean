import Playground.Clockwork

/-!
# What stays true while a system runs

A property that every step keeps, and that does not depend on the clock, holds
when the system has settled, when time has passed, and when something was waited
for. The limits on the number of steps and timers have no part in it.

Whether a system settles can be said without a limit: some number of steps leads to
where none is left. The same can be said of time that passes from timer to timer.
-/

namespace Playground.Clockwork

variable {σ : Type} [Clockwork σ] {motive : σ → Prop} {s : σ}

theorem settleWithin_rec (step : ∀ s t : σ, step? s = some t → motive s → motive t)
    (start : motive s) (limit : Nat) : motive (settleWithin limit s) := by
  induction limit generalizing s with
  | zero => exact start
  | succ limit ih =>
      rw [settleWithin]
      split
      · exact start
      · next t h => exact ih (step s t h start)

theorem settle_rec (step : ∀ s t : σ, step? s = some t → motive s → motive t)
    (start : motive s) : motive (settle s) :=
  settleWithin_rec step start patience

theorem passWithin_rec (step : ∀ s t : σ, step? s = some t → motive s → motive t)
    (clock : ∀ (now : Nat) (s : σ), motive s → motive (setNow now s)) (start : motive s)
    (limit target : Nat) : motive (passWithin limit target s) := by
  have jump (now : Nat) {s : σ} (h : motive s) : motive (settle (setNow now s)) :=
    settle_rec step (clock now s h)
  induction limit generalizing s with
  | zero => exact jump target start
  | succ limit ih =>
      cases due : due? s with
      | none =>
          rw [passWithin.eq_def, due]
          exact jump target start
      | some t =>
          rw [passWithin.eq_def, due]
          simp only []
          split
          · exact ih (jump t start)
          · exact jump target start

theorem pass_rec (step : ∀ s t : σ, step? s = some t → motive s → motive t)
    (clock : ∀ (now : Nat) (s : σ), motive s → motive (setNow now s)) (start : motive s)
    (ms : Nat) : motive (pass ms s) :=
  passWithin_rec step clock start patience _

theorem awaitWithin_rec (step : ∀ s t : σ, step? s = some t → motive s → motive t)
    (clock : ∀ (now : Nat) (s : σ), motive s → motive (setNow now s)) (start : motive s)
    (limit : Nat) (done : σ → Bool) : motive (awaitWithin limit done s) := by
  induction limit generalizing s with
  | zero =>
      rw [awaitWithin.eq_def]
      split <;> exact start
  | succ limit ih =>
      rw [awaitWithin.eq_def]
      split
      · exact start
      cases due : due? s with
      | none => exact start
      | some t => exact ih (settle_rec step (clock t s start))

theorem await_rec (step : ∀ s t : σ, step? s = some t → motive s → motive t)
    (clock : ∀ (now : Nat) (s : σ), motive s → motive (setNow now s)) (start : motive s)
    (done : σ → Bool) : motive (await done s) :=
  awaitWithin_rec step clock start patience done

/-! ## Settling without a limit -/

/-- Steps lead from one state to another one where none is left. -/
inductive Settles : σ → σ → Prop where
  | rest {s : σ} (still : step? s = none) : Settles s s
  | step {s t u : σ} (next : step? s = some t) (later : Settles t u) : Settles s u

variable {t : σ}

theorem Settles.still (h : Settles s t) : step? t = none := by
  induction h with
  | rest still => exact still
  | step _ _ ih => exact ih

theorem Settles.keeps (step : ∀ s t : σ, step? s = some t → motive s → motive t)
    (h : Settles s t) (start : motive s) : motive t := by
  induction h with
  | rest => exact start
  | step next _ ih => exact ih (step _ _ next start)

/-- A system settles where it does within some limit. -/
theorem settles_iff : Settles s t ↔ step? t = none ∧ ∃ limit, settleWithin limit s = t := by
  constructor
  · intro h
    refine ⟨h.still, ?_⟩
    induction h with
    | rest => exact ⟨0, rfl⟩
    | step next _ ih =>
        obtain ⟨limit, rfl⟩ := ih
        refine ⟨limit + 1, ?_⟩
        rw [settleWithin, next]
  · rintro ⟨still, limit, rfl⟩
    induction limit generalizing s with
    | zero => exact .rest still
    | succ limit ih =>
        rw [settleWithin] at still ⊢
        cases next : step? s with
        | none => exact .rest next
        | some t =>
            rw [next] at still
            exact .step next (ih still)

/-- What is at rest within a limit has settled. -/
theorem settles_settleWithin (limit : Nat) (still : step? (settleWithin limit s) = none) :
    Settles s (settleWithin limit s) :=
  settles_iff.mpr ⟨still, limit, rfl⟩

/-- Time passes up to `target`, and at each timer and in the end the system settles. -/
inductive Passes (target : Nat) : σ → σ → Prop where
  | timer {s t u : σ} {n : Nat} (due : due? s = some n) (le : n ≤ target)
      (settled : Settles (setNow n s) t) (later : Passes target t u) : Passes target s u
  | last {s t : σ} (next : ∀ time ∈ due? s, target < time)
      (settled : Settles (setNow target s) t) : Passes target s t

theorem Passes.still {target : Nat} (h : Passes target s t) : step? t = none := by
  induction h with
  | timer _ _ _ _ ih => exact ih
  | last _ settled => exact settled.still

end Playground.Clockwork
