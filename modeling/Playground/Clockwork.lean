/-!
# Systems that run on a clock

Such a system has steps that it can take at once, and timers that make further
steps possible later. Between two visits from outside it settles: it takes
steps until none is left. Time passes from timer to timer, and the system
settles at each of them.

Whether a system settles at all depends on the system, so settling has a limit
on the number of steps. The limit is bookkeeping: a system that settles within
it settles in the same way under every larger one.
-/

namespace Playground

/-- A system that runs on a clock. -/
class Clockwork (σ : Type) where
  /-- The next step that can be taken now, if there is one. -/
  step? : σ → Option σ
  /-- The time, in milliseconds. -/
  now : σ → Nat
  /-- When the next timer is due, if there is one. -/
  due? : σ → Option Nat
  /-- Moves the clock. -/
  setNow : Nat → σ → σ

namespace Clockwork

variable {σ : Type} [Clockwork σ]

/-- More steps than a system takes that settles. -/
def patience : Nat := 1000000

/-- Takes steps until none is left, but at most `limit`. -/
def settleWithin (limit : Nat) (s : σ) : σ :=
  match limit with
  | 0 => s
  | limit + 1 =>
    match step? s with
    | none => s
    | some s => settleWithin limit s

/-- Takes steps until none is left. -/
def settle (s : σ) : σ :=
  settleWithin patience s

/-- Lets the time pass up to `target`, settling at each timer, of which there are at most `limit`. -/
def passWithin (limit : Nat) (target : Nat) (s : σ) : σ :=
  match limit, due? s with
  | limit + 1, some t =>
    if t ≤ target then passWithin limit target (settle (setNow t s))
    else settle (setNow target s)
  | _, _ => settle (setNow target s)

/-- Lets `ms` milliseconds pass. -/
def pass (ms : Nat) (s : σ) : σ :=
  passWithin patience (now s + ms) s

/-- Lets the time pass from timer to timer, of which there are at most `limit`, until `done` holds or no
timer is left. -/
def awaitWithin (limit : Nat) (done : σ → Bool) (s : σ) : σ :=
  if done s then s
  else
    match limit, due? s with
    | limit + 1, some t => awaitWithin limit done (settle (setNow t s))
    | _, _ => s

/-- Lets the time pass until `done` holds or no timer is left. -/
def await (done : σ → Bool) (s : σ) : σ :=
  awaitWithin patience done s

end Clockwork

end Playground
