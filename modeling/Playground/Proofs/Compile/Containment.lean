import Playground.Compile.Process
import Playground.Proofs.Compile.Answers
import Playground.Proofs.Json.Acceptance

/-!
# Whatever goes wrong with the compiler is contained

A call is followed through its two layers. What starting the process, waiting for it
and killing it come to is arbitrary, so each of them may break in any way. The inner
layer turns a part of this into failures, and lets the rest through together with the
cancellation. The outer layer makes failures of the rest, and then of the answers that
do not have the form of a result.

So there are four ways through the inner layer: there is no command, the process is not
started, it ends or waiting for it breaks, or the call is cancelled meanwhile. Only the
last one kills anything.
-/

namespace Playground

/-- What a process printed spells a result: all of it is JSON, and the value is one of the
spellings. -/
def CompileResult.Printed (r : CompileResult) (output : Bytes) : Prop :=
  ∃ document value, Encoding.decode output = some document ∧ Json.IsDocument value document ∧
    r.Spelled value

namespace ProcessCall

variable {command : List Text} {options : CompileOptions}
  {attempt : Except Obstacle RunningProcess} {process : RunningProcess} {raw : Json}

/-! ## The answer -/

theorem readOutput_eq_ok_iff {output : Bytes} : readOutput output = .ok raw ↔
    ∃ document, Encoding.decode output = some document ∧ Json.IsDocument raw document := by
  simp only [← Json.parse_eq_ok_iff]
  unfold readOutput
  cases Encoding.decode output with
  | none => exact iff_of_false nofun nofun
  | some document =>
      simp only [Option.some.injEq, exists_eq_left']
      cases Json.parse document with
      | ok value =>
          exact ⟨fun h => congrArg _ (Except.ok.inj h), fun h => congrArg _ (Except.ok.inj h)⟩
      | error fault =>
          refine iff_of_false ?_ nofun
          cases fault <;> exact nofun

theorem printed_iff {r : CompileResult} {output : Bytes} :
    r.Printed output ↔ ∃ raw, readOutput output = .ok raw ∧ r.Spelled raw := by
  simp only [readOutput_eq_ok_iff]
  constructor
  · rintro ⟨document, raw, decoded, json, spelled⟩
    exact ⟨raw, ⟨document, decoded, json⟩, spelled⟩
  · rintro ⟨raw, ⟨document, decoded, json⟩, spelled⟩
    exact ⟨document, raw, decoded, json, spelled⟩

theorem readExit_eq_ok_iff {exit : Exit} :
    readExit command exit = .ok raw ↔ exit.code = 0 ∧ readOutput exit.output = .ok raw := by
  unfold readExit
  split
  · next code => exact iff_of_false nofun fun h => code h.1
  · next code => exact (and_iff_right (not_not.mp code)).symm

/-- Reading the answer is not cancelled. -/
theorem readExit_ne_cancelled {exit : Exit} : readExit command exit ≠ .error .cancelled := by
  unfold readExit readOutput
  split
  · exact nofun
  split
  · exact nofun
  split <;> exact nofun

/-! ## The process -/

/-- The call is cancelled when the process has been started. -/
def CancelledMidway (command : List Text) (attempt : Except Obstacle RunningProcess) : Prop :=
  command ≠ [] ∧ ∃ process, attempt = .ok process ∧ process.finish = .error .cancelled

/-- What comes in the way when the process cannot be started. -/
def unstarted (program : Text) : Obstacle → Obstacle
  | .notFound _ => .failure (.notInstalled program)
  | other => other

/-- What comes in the way when the process has been killed because the call was cancelled. -/
def killed : Except Obstacle Unit → Obstacle
  | .ok () | .error (.gone _) => .cancelled
  | .error other => other

/-- The ways a call can go, with its answer and how often the process is killed. -/
inductive Course : List Text → Except Obstacle RunningProcess → Except Obstacle Json → Nat → Prop
  | unnamed (attempt : Except Obstacle RunningProcess) :
      Course [] attempt (.error (.failure .noCommand)) 0
  | unstarted (program : Text) (words : List Text) (obstacle : Obstacle) :
      Course (program :: words) (.error obstacle) (.error (unstarted program obstacle)) 0
  | ended {command : List Text} (named : command ≠ []) {process : RunningProcess} {exit : Exit}
      (finish : process.finish = .ok exit) :
      Course command (.ok process) (readExit command exit) 0
  | broken {command : List Text} (named : command ≠ []) {process : RunningProcess}
      {obstacle : Obstacle} (finish : process.finish = .error obstacle)
      (going : obstacle ≠ .cancelled) : Course command (.ok process) (.error obstacle) 0
  | cancelled {command : List Text} (named : command ≠ []) {process : RunningProcess}
      (finish : process.finish = .error .cancelled) :
      Course command (.ok process) (.error (killed process.kill)) 1

theorem killed_eq_cancelled_iff {kill : Except Obstacle Unit} : killed kill = .cancelled ↔
    kill = .ok () ∨ kill = .error .cancelled ∨ ∃ message, kill = .error (.gone message) := by
  cases kill with
  | ok => exact iff_of_true rfl (.inl rfl)
  | error obstacle => cases obstacle <;> simp [killed]

theorem course (command : List Text) (options : CompileOptions)
    (attempt : Except Obstacle RunningProcess) :
    Course command attempt (conduct command options attempt).answer
      (conduct command options attempt).kills := by
  cases command with
  | nil => exact .unnamed attempt
  | cons program words =>
      have named : program :: words ≠ [] := List.cons_ne_nil _ _
      match attempt with
      | .error obstacle => cases obstacle <;> exact .unstarted program words _
      | .ok ⟨.ok exit, kill⟩ => exact .ended named rfl
      | .ok ⟨.error obstacle, kill⟩ =>
          cases obstacle with
          | cancelled =>
              cases kill with
              | ok => exact .cancelled named rfl
              | error obstacle => cases obstacle <;> exact .cancelled named rfl
          | failure | notFound | gone | fault => exact .broken named rfl nofun

namespace Course

variable {answer : Except Obstacle Json} {kills : Nat}

theorem answer_eq_ok_iff (course : Course command attempt answer kills) :
    answer = .ok raw ↔ command ≠ [] ∧ ∃ process output complaint, attempt = .ok process ∧
      process.finish = .ok ⟨0, output, complaint⟩ ∧ readOutput output = .ok raw := by
  cases course with
  | unnamed => exact iff_of_false nofun fun h => h.1 rfl
  | unstarted => exact iff_of_false nofun nofun
  | @ended _ named process exit finish =>
      rw [readExit_eq_ok_iff]
      obtain ⟨code, output, complaint⟩ := exit
      constructor
      · rintro ⟨rfl, read⟩
        exact ⟨named, process, output, complaint, rfl, finish, read⟩
      · rintro ⟨-, _, output', complaint', ⟨⟩, finish', read⟩
        cases finish.symm.trans finish'
        exact ⟨rfl, read⟩
  | broken named finish | cancelled named finish =>
      refine iff_of_false nofun ?_
      rintro ⟨-, _, _, _, ⟨⟩, finish', -⟩
      cases finish.symm.trans finish'

theorem answer_eq_cancelled_iff (course : Course command attempt answer kills) :
    answer = .error .cancelled ↔ command ≠ [] ∧ (attempt = .error .cancelled ∨
      ∃ process, attempt = .ok process ∧ process.finish = .error .cancelled ∧
        killed process.kill = .cancelled) := by
  cases course with
  | unnamed => exact iff_of_false nofun fun h => h.1 rfl
  | unstarted program words obstacle => cases obstacle <;> simp [ProcessCall.unstarted]
  | ended named finish => exact iff_of_false readExit_ne_cancelled (by simp [finish])
  | broken named finish going => simp [finish, going]
  | cancelled named finish => simp [finish, named]

theorem kills_eq (course : Course command attempt answer kills) :
    (CancelledMidway command attempt → kills = 1) ∧
      (¬ CancelledMidway command attempt → kills = 0) := by
  unfold CancelledMidway
  cases course with
  | unnamed | unstarted => simp
  | ended named finish => simp [finish]
  | broken named finish going => simp [finish, going]
  | cancelled named finish => simp [finish, named]

end Course

/-! ## What comes of a call -/

/-- Whoever asks gets what the reply comes to, or the cancellation if there is no reply. -/
theorem ending_eq_result (call : ProcessCall) : call.ending =
    call.reply.elim (.error .cancelled) fun reply => reply.result.mapError .failure := by
  obtain ⟨answer, started⟩ := call
  cases answer with
  | error obstacle => cases obstacle <;> rfl
  | ok raw =>
      show (CompileResult.ofJson raw).mapError _ =
        ((CompileResult.ofJson raw).mapError CompileFailure.malformed).mapError _
      cases CompileResult.ofJson raw <;> rfl

theorem ending_cases (call : ProcessCall) : (∃ r, call.ending = .ok r) ∨
    (∃ failure, call.ending = .error (.failure failure)) ∨ call.ending = .error .cancelled := by
  rw [ending_eq_result]
  cases call.reply with
  | none => exact .inr (.inr rfl)
  | some reply =>
      rw [Option.elim_some]
      cases reply.result with
      | ok r => exact .inl ⟨r, rfl⟩
      | error failure => exact .inr (.inl ⟨failure, rfl⟩)

theorem ending_eq_ok_iff {call : ProcessCall} {r : CompileResult} :
    call.ending = .ok r ↔ ∃ raw, call.answer = .ok raw ∧ r.Spelled raw := by
  simp only [← CompileResult.ofJson_eq_ok_iff]
  obtain ⟨answer, started⟩ := call
  cases answer with
  | error => exact iff_of_false nofun nofun
  | ok raw =>
      simp only [Except.ok.injEq, exists_eq_left']
      unfold ending
      simp only []
      cases CompileResult.ofJson raw with
      | ok => exact ⟨fun h => congrArg _ (Except.ok.inj h), fun h => congrArg _ (Except.ok.inj h)⟩
      | error => exact iff_of_false nofun nofun

theorem ending_eq_cancelled_iff {call : ProcessCall} :
    call.ending = .error .cancelled ↔ call.answer = .error .cancelled := by
  obtain ⟨answer, started⟩ := call
  cases answer with
  | error obstacle => cases obstacle <;> simp [ending, contain]
  | ok raw =>
      refine iff_of_false ?_ nofun
      unfold ending
      simp only []
      cases CompileResult.ofJson raw <;> exact nofun

/-- A call ends as a result, as a failure or as the cancellation, whatever comes in its way. It ends as
a result exactly if the process ends with code zero and has printed that result, and as the
cancellation only if it is cancelled. The process is killed once if the call is cancelled when it has
been started, even if it is gone already, and is not killed otherwise. -/
theorem contains_failures (command : List Text) (options : CompileOptions)
    (attempt : Except Obstacle RunningProcess) :
    let call := conduct command options attempt
    ((∃ r, call.ending = .ok r) ∨ (∃ failure, call.ending = .error (.failure failure)) ∨
      call.ending = .error .cancelled) ∧
    (∀ r, call.ending = .ok r ↔ command ≠ [] ∧ ∃ process output complaint,
      attempt = .ok process ∧ process.finish = .ok ⟨0, output, complaint⟩ ∧ r.Printed output) ∧
    (call.ending = .error .cancelled ↔ command ≠ [] ∧ (attempt = .error .cancelled ∨
      ∃ process, attempt = .ok process ∧ process.finish = .error .cancelled ∧
        (process.kill = .ok () ∨ process.kill = .error .cancelled ∨
          ∃ message, process.kill = .error (.gone message)))) ∧
    (CancelledMidway command attempt → call.kills = 1) ∧
    (¬ CancelledMidway command attempt → call.kills = 0) := by
  have went := course command options attempt
  refine ⟨ending_cases _, fun r => ?_, ?_, went.kills_eq⟩
  · rw [ending_eq_ok_iff]
    simp only [went.answer_eq_ok_iff, printed_iff]
    constructor
    · rintro ⟨raw, ⟨named, process, output, complaint, started, finish, read⟩, spelled⟩
      exact ⟨named, process, output, complaint, started, finish, raw, read, spelled⟩
    · rintro ⟨named, process, output, complaint, started, finish, raw, read, spelled⟩
      exact ⟨raw, ⟨named, process, output, complaint, started, finish, read⟩, spelled⟩
  · simp only [ending_eq_cancelled_iff, went.answer_eq_cancelled_iff, killed_eq_cancelled_iff]

/-- The process is gone before it can be killed. -/
example (options : CompileOptions) :
    let call := conduct [text "c"] options
      (.ok { finish := .error .cancelled, kill := .error (.gone []) })
    call.ending = .error .cancelled ∧ call.kills = 1 :=
  ⟨rfl, rfl⟩

end ProcessCall

end Playground
