import Playground.Text
/-!
# The debouncer

A debouncer holds back a value until a window of time has passed without a
newer one. Each push replaces the value and starts the window anew; values that
were replaced are never given out.

Those who wait until nothing is held back are released by a signal. The signal
is given when a value was given out or dropped, and it stays up until the next
push. What the receiver of a value does comes before the signal, so when the
receiver pushes again the signal goes up although a value is held back.
-/

namespace Playground

/-- A debouncer for values of type `α`, on which those of type `ω` wait. -/
structure Debouncer (α ω : Type) where
  /-- The length of the window, in milliseconds. -/
  window : Nat
  /-- The value that is held back, and when it is due. -/
  held : Option (Nat × α) := none
  /-- Whether the signal is up. -/
  idle : Bool := true
  /-- Those who wait for the signal, first come first. -/
  waiting : List ω := []

/-- A window cannot be negative. -/
structure NegativeWindow where
  given : Int
deriving DecidableEq, Repr

/-- What the refusal of a window reads like. -/
def NegativeWindow.message (e : NegativeWindow) : Text :=
  text "window_ms must be >= 0, got " ++ Text.ofInt e.given

namespace Debouncer

variable {α ω : Type}

/-- A debouncer with a window of this length. -/
def ofWindow (window : Int) : Except NegativeWindow (Debouncer α ω) :=
  match window with
  | .ofNat window => .ok { window }
  | .negSucc _ => .error ⟨window⟩

/-- Whether a value is held back. -/
def isPending (d : Debouncer α ω) : Bool :=
  d.held.isSome

/-- Holds back a value. -/
def push (d : Debouncer α ω) (now : Nat) (value : α) : Debouncer α ω :=
  { d with held := some (now + d.window, value), idle := false }

/-- Puts the signal up and releases those who wait. -/
def signal (d : Debouncer α ω) : Debouncer α ω × List ω :=
  ({ d with idle := true, waiting := [] }, d.waiting)

/-- Drops the value that is held back, and releases those who wait. -/
def cancel (d : Debouncer α ω) : Debouncer α ω × List ω :=
  signal { d with held := none }

/-- When the value that is held back is due. -/
def due? (d : Debouncer α ω) : Option Nat :=
  d.held.map Prod.fst

/-- Gives out the value that is due. The signal is left to be given after the value was received. -/
def take? (d : Debouncer α ω) (now : Nat) : Option (α × Debouncer α ω) :=
  match d.held with
  | some (time, value) => if time ≤ now then some (value, { d with held := none }) else none
  | none => none

/-- Lets `w` wait for the signal, unless it is up. -/
def await? (d : Debouncer α ω) (w : ω) : Option (Debouncer α ω) :=
  if d.idle then none else some { d with waiting := d.waiting ++ [w] }

end Debouncer

end Playground
