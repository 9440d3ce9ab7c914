import Playground.Clockwork
import Playground.Debouncer
import Playground.Log
/-!
# A debouncer on a clock

The life of a debouncer together with a receiver and with those who wait for
it. A receiver may push again or cancel while it is given a value, and it may
break. Whoever waits is served in a turn of its own, so it learns of a signal
after whatever the one who gave the signal was about to do.
-/

namespace Playground

/-- What a receiver does to the debouncer while it is given a value. -/
inductive Reaction (α : Type) where
  | push (value : α)
  | cancel
deriving DecidableEq, Repr

/-- What comes of giving a value to a receiver. -/
structure Reception (α : Type) where
  /-- What it does, in order. -/
  reactions : List (Reaction α) := []
  /-- The complaint with which it breaks in the end, if it does. -/
  complaint? : Option Text := none

/-- The ways of a receiver. What it does may depend on all values that it was given so far, and on
when that was; the latest value comes last. -/
structure Behaviour (α : Type) where
  reception : List (Nat × α) → Reception α

/-- A receiver that goes by the value alone. -/
structure Receiver (α : Type) where
  /-- The complaint with which it breaks at once, if it does. -/
  complaint? : α → Option Text := fun _ => none
  /-- The value that it pushes in answer. -/
  answer? : α → Option α := fun _ => none
  /-- Whether it cancels, after its answer. -/
  cancels : α → Bool := fun _ => false

namespace Receiver

variable {α : Type}

/-- What comes of giving it a value. -/
def receptionOf (r : Receiver α) (value : α) : Reception α :=
  match r.complaint? value with
  | some complaint => { complaint? := some complaint }
  | none =>
    { reactions := ((r.answer? value).map Reaction.push).toList ++
        if r.cancels value then [.cancel] else [] }

/-- The ways of a receiver that goes by the value alone. -/
def behaviour (r : Receiver α) : Behaviour α where
  reception given :=
    match given.getLast? with
    | some (_, value) => r.receptionOf value
    | none => {}

instance : Coe (Receiver α) (Behaviour α) :=
  ⟨behaviour⟩

end Receiver

/-- The turn of one who waits. -/
inductive Turn where
  /-- It starts to wait. -/
  | start (waiter : Nat)
  /-- It learns of the signal. -/
  | resume (waiter : Nat)
deriving DecidableEq, Repr

/-- What happens to a debouncer. -/
inductive Happening (α : Type) where
  /-- A value is pushed: by the receiver while it is given another one, or from outside. -/
  | pushed (byReceiver : Bool) (value : α)
  /-- What is held back is dropped, if there is anything. -/
  | cancelled
  /-- A value is given out. -/
  | emitted (value : α)
deriving DecidableEq, Repr

/-- A debouncer and what has happened to it. -/
structure Timeline (α : Type) where
  receiver : Behaviour α
  debouncer : Debouncer α Nat
  now : Nat := 0
  /-- What has happened, and when. -/
  happened : List (Nat × Happening α) := []
  /-- Of each who waits, whether its waiting is over. -/
  waiters : List Bool := []
  /-- The turns that are to be taken, in order. -/
  turns : List Turn := []
  log : List LogRecord := []

namespace Timeline

variable {α : Type}

/-- Notes what happens now. -/
def note (t : Timeline α) (h : Happening α) : Timeline α :=
  { t with happened := t.happened ++ [(t.now, h)] }

/-- The value that was given out, if that is what happened. -/
def emission? : Nat × Happening α → Option (Nat × α)
  | (time, .emitted value) => some (time, value)
  | _ => none

/-- The values that were given out, and when. -/
def emitted (t : Timeline α) : List (Nat × α) :=
  t.happened.filterMap emission?

/-- Gives a turn to each one that was released. -/
def release (t : Timeline α) (outcome : Debouncer α Nat × List Nat) : Timeline α :=
  { t with debouncer := outcome.1, turns := t.turns ++ outcome.2.map Turn.resume }

/-- Pushes a value on behalf of the receiver or of someone else. -/
def pushBy (byReceiver : Bool) (t : Timeline α) (value : α) : Timeline α :=
  { t with debouncer := t.debouncer.push t.now value }.note (.pushed byReceiver value)

/-- Pushes a value. -/
def push (t : Timeline α) (value : α) : Timeline α :=
  t.pushBy false value

/-- Drops the value that is held back. -/
def cancel (t : Timeline α) : Timeline α :=
  (t.release t.debouncer.cancel).note .cancelled

/-- Lets someone new wait. -/
def wait (t : Timeline α) : Timeline α :=
  { t with
    waiters := t.waiters ++ [false]
    turns := t.turns ++ [.start t.waiters.length] }

/-- The waiting of this one is over. -/
def finish (t : Timeline α) (waiter : Nat) : Timeline α :=
  { t with waiters := t.waiters.set waiter true }

/-- Takes a turn. -/
def take (t : Timeline α) : Turn → Timeline α
  | .start waiter =>
    match t.debouncer.await? waiter with
    | some debouncer => { t with debouncer }
    | none => t.finish waiter
  | .resume waiter => t.finish waiter

/-- Does what a receiver does. -/
def react (t : Timeline α) : Reaction α → Timeline α
  | .push value => t.pushBy true value
  | .cancel => t.cancel

/-- Notes a complaint. -/
def complain (t : Timeline α) (complaint : Text) : Timeline α :=
  { t with log := t.log ++ [.failure (text "Debounced callback failed") (.broke complaint)] }

/-- Hands a value to the receiver. -/
def receive (t : Timeline α) (value : α) : Timeline α :=
  let t := t.note (.emitted value)
  let reception := t.receiver.reception t.emitted
  let t := reception.reactions.foldl react t
  match reception.complaint? with
  | some complaint => t.complain complaint
  | none => t

/-- Gives out the value that is due, and then the signal. -/
def fire? (t : Timeline α) : Option (Timeline α) :=
  (t.debouncer.take? t.now).map fun (value, debouncer) =>
    let t := ({ t with debouncer }).receive value
    t.release t.debouncer.signal

/-- The next step: a turn, or else the value that is due. -/
def step? (t : Timeline α) : Option (Timeline α) :=
  match t.turns with
  | turn :: turns => some (({ t with turns }).take turn)
  | [] => t.fire?

instance : Clockwork (Timeline α) where
  step? := step?
  now := now
  due? t := t.debouncer.due?
  setNow now t := { t with now }

end Timeline

end Playground
