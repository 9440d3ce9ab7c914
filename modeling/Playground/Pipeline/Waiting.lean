import Playground.Pipeline.Basic
/-!
# Waiting until a pipeline is idle

One who waits goes through three gates: nothing is held back, the triggers have
been worked off, and the runs in flight have ended. After the last gate it
begins anew, until it passes all of them with nothing left to do. When the
control loop is off nobody works off the triggers, so the second gate ends the
waiting.
-/

namespace Playground.Pipeline

/-- The gate of the debouncer: whether to stop here. -/
def holdUntilSettled (p : Pipeline) (i : Nat) : Option Pipeline :=
  (p.debouncer.await? i).map fun debouncer => { p with debouncer }.setWaiter i .settled

/-- Waits at the gate of the queue. -/
def holdUntilConsumed (p : Pipeline) (i : Nat) : Pipeline :=
  { p with queueWaiting := p.queueWaiting ++ [i] }.setWaiter i .consumed

/-- Goes on at the gate of the runs. -/
def passRuns (p : Pipeline) (i : Nat) : Pipeline :=
  if !p.runs.isEmpty then
    (p.setWaiter i (.gathering p.runs.length)).watchRuns (.waiter i)
  else if p.queue.isEmpty && !p.debouncer.isPending then p.setWaiter i .done
  else
    match p.holdUntilSettled i with
    | some p => p
    | none => if p.loop = .off then p.setWaiter i .done else p.holdUntilConsumed i

/-- Goes on at the gate of the queue. -/
def passQueue (p : Pipeline) (i : Nat) : Pipeline :=
  if p.loop = .off then p.setWaiter i .done
  else if !p.queue.isEmpty then p.holdUntilConsumed i
  else p.passRuns i

/-- Goes on at the gate of the debouncer. -/
def passDebouncer (p : Pipeline) (i : Nat) : Pipeline :=
  match p.holdUntilSettled i with
  | some p => p
  | none => p.passQueue i

/-- What one who waits does when it is served. -/
def serveWaiter (p : Pipeline) (i : Nat) : Pipeline :=
  match p.waiters[i]? with
  | some .start => p.passDebouncer i
  | some .settled => p.passQueue i
  | some .consumed => p.passRuns i
  | some (.gathering _) | some .done | none => p

/-- Lets someone new wait. -/
def wait (p : Pipeline) : Pipeline :=
  { p with waiters := p.waiters ++ [WaiterStage.start] }.schedule [.waiter p.waiters.length]

/-- One who waits learns that a run has ended. -/
def noticeWaiter (p : Pipeline) (i : Nat) : Pipeline :=
  match p.waiters[i]? with
  | some (.gathering (n + 2)) => p.setWaiter i (.gathering (n + 1))
  | some (.gathering 1) => (p.setWaiter i .start).schedule [.waiter i]
  | _ => p

end Playground.Pipeline
