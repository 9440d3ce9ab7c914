import Playground.Proofs.Pipeline.Turn

/-!
# The outside of a pipeline

Those who use a pipeline see the session and the fragment, the editors, what is
displayed, and what they are told of publications. An edit that is held back is
on the outside too, since nobody but the clock gives it out. The control loop,
the runs and the line of jobs are inside.

Of all the jobs only one reaches the outside. It serves a run that publishes, and
what it changes there is the output, the markers in the editor that is mounted,
and what subscriptions hold. What users put in, that is all of the outside but
these three, is changed by no job.
-/

namespace Playground.Pipeline

variable {p q : Pipeline}

/-- The outside of a pipeline: the inside is as if nothing had happened. -/
def outside (p : Pipeline) : Pipeline where
  environment := p.environment
  now := p.now
  session := p.session
  settled := p.settled
  output := p.output
  debouncer := { window := p.debouncer.window, held := p.debouncer.held }
  fragment := p.fragment
  encoderWorks := p.encoderWorks
  editors := p.editors
  mounted := p.mounted
  subscriptions := p.subscriptions

/-- An editor without its markers. -/
def unmarked (e : Editor Unit) : Editor Unit :=
  { e with markers := [] }

/-- What users put in. Of the collaborators only what sessions are read with is kept. -/
def input (p : Pipeline) : Pipeline :=
  { p.outside with
    environment := { p.environment with compiler := none, engine := fun _ => .onRequest }
    output := {}
    editors := p.editors.map unmarked
    mounted := none
    subscriptions := [] }

theorem input_eq_of_outside (h : q.outside = p.outside) : q.input = p.input := by
  have editors := congrArg Pipeline.editors h
  have environment := congrArg Pipeline.environment h
  change q.editors = p.editors at editors
  change q.environment = p.environment at environment
  rw [input, input, h, editors, environment]

/-! ## Operations inside -/

@[simp] theorem outside_settlePhase (p : Pipeline) : p.settlePhase.outside = p.outside := by
  unfold settlePhase
  split
  · rfl
  · split <;> rfl

@[simp] theorem outside_trigger (p : Pipeline) : p.trigger.outside = p.outside := by
  simp only [trigger]
  split <;> rfl

@[simp] theorem outside_dispatch (p : Pipeline) (trigger : Trigger) :
    (p.dispatch trigger).outside = p.outside := by
  simp only [dispatch]
  split
  · exact outside_settlePhase p
  · rfl

theorem outside_foldl_dispatch (queue : List Trigger) (p : Pipeline) :
    (queue.foldl dispatch p).outside = p.outside := by
  induction queue generalizing p with
  | nil => rfl
  | cons trigger rest ih => rw [List.foldl_cons, ih, outside_dispatch]

theorem outside_serveLoop (p : Pipeline) : p.serveLoop.outside = p.outside := by
  have consume : p.consume.outside = p.outside := by
    unfold consume
    split
    · rfl
    · exact outside_foldl_dispatch p.queue { p with queue := [] }
  unfold serveLoop
  split
  · exact consume
  · exact consume
  all_goals rfl

theorem outside_reap (p : Pipeline) (generation : Nat) :
    (p.reap generation).outside = p.outside := by
  unfold reap
  rw [outside_settlePhase]
  split <;> rfl

theorem Attends.outside_eq (h : Attends p q) : q.outside = p.outside := by
  obtain ⟨_, _, _, _, _, -, -, rfl⟩ := h
  rfl

theorem outside_noticeCaller (p : Pipeline) : p.noticeCaller.outside = p.outside := by
  unfold noticeCaller
  split <;> rfl

theorem outside_haltLoop (p : Pipeline) : p.haltLoop.outside = p.outside := by
  unfold haltLoop
  split <;> rfl

/-- Nobody leaves actions that follow a halt, so going on after it changes nothing outside. -/
theorem outside_serveCaller (h : p.script = []) : p.serveCaller.outside = p.outside := by
  have served := callerServed h
  generalize p.serveCaller = q at served ⊢
  cases served with
  | waits | ends => rfl
  | cancels | returns => exact outside_haltLoop p

theorem outside_answerDue (h : p.answerDue? = some q) : q.outside = p.outside := by
  obtain ⟨_, _, hr⟩ := List.exists_of_findSome?_eq_some h
  obtain ⟨_, _, rfl⟩ := Option.map_eq_some_iff.mp hr
  rfl

theorem outside_answerCompiler (p : Pipeline) (call : Nat) (reply : CompilerReply) :
    (p.answerCompiler call reply).1.outside = p.outside := by
  simp only [answerCompiler]
  split <;> rfl

theorem outside_answerEngine (p : Pipeline) (call : Nat) (engineRun : EngineRun) :
    (p.answerEngine call engineRun).1.outside = p.outside := by
  simp only [answerEngine]
  split <;> rfl

/-! Halting drops the edit that is held back, and that is all. -/

theorem outside_foldl_cancelRun (runs : List Run) (p : Pipeline) :
    (runs.foldl cancelRun p).outside = p.outside := by
  induction runs generalizing p with
  | nil => rfl
  | cons run rest ih =>
      rw [List.foldl_cons, ih]
      unfold cancelRun
      split <;> rfl

theorem outside_beginHalt (p : Pipeline) : p.beginHalt.outside = p.dropEdit.outside := by
  have cancel := outside_foldl_cancelRun p.dropEdit.runs p.dropEdit
  unfold beginHalt
  simp only []
  split
  · rw [outside_haltLoop, cancel]
  · exact cancel

/-! ## Publishing -/

/-- A pipeline publishes what a run has found, having done nothing outside before. -/
inductive Publishes (p : Pipeline) : Pipeline → Prop
  | intro {base : Pipeline} {run : Run} {result : CompileResult} {bundles : List BundleChunk}
      (outside : base.outside = p.outside) (runs : base.runs = p.runs) (mem : run ∈ p.runs)
      (isOpen : run.stage.isOver = false) : Publishes p (base.publish run result bundles)

theorem Publishes.of_base {base : Pipeline} (h : base.Publishes q)
    (outside : base.outside = p.outside) (runs : base.runs = p.runs) : p.Publishes q := by
  cases h with
  | intro outside' runs' mem isOpen =>
      exact ⟨outside'.trans outside, runs'.trans runs, runs ▸ mem, isOpen⟩

theorem input_markDiagnostics {diagnostics : List Diagnostic}
    (h : p.markDiagnostics diagnostics = .ok q) : q.input = p.input := by
  unfold markDiagnostics at h
  split at h
  · cases h
    rfl
  · next i _ =>
      split at h
      · cases h
        rfl
      · next editor found =>
          cases marks : editor.mark diagnostics with
          | error e =>
              rw [marks] at h
              cases h
          | ok marked =>
              rw [marks] at h
              cases h
              have same : unmarked marked = unmarked editor := by
                unfold Editor.mark at marks
                split at marks
                · cases marks
                · cases Except.ok.inj marks
                  rfl
              have editors : (p.editors.set i marked).map unmarked = p.editors.map unmarked := by
                rw [List.map_set, same]
                refine List.ext_getElem? fun j => ?_
                rw [List.getElem?_set, List.getElem?_map]
                split
                · next he =>
                    subst he
                    rw [found, List.length_map]
                    split
                    · rfl
                    · next out => exact absurd (List.getElem?_eq_some_iff.mp found).1 out
                · rfl
              simp only [input, outside, editors]

theorem input_publish (p : Pipeline) (run : Run) (result : CompileResult)
    (bundles : List BundleChunk) : (p.publish run result bundles).input = p.input := by
  simp only [publish]
  split
  · rfl
  · next q h => exact (input_markDiagnostics h :)

theorem Publishes.input (h : p.Publishes q) : q.input = p.input := by
  cases h with
  | intro outside => rw [input_publish, input_eq_of_outside outside]

/-- A run publishes, or it does nothing outside. -/
theorem publishes_or_outside_serveRun (p : Pipeline) (generation : Nat) :
    p.Publishes (p.serveRun generation) ∨ (p.serveRun generation).outside = p.outside := by
  have served := runServed p generation
  generalize p.serveRun generation = q at served ⊢
  cases served with
  | publishes mem isOpen => exact .inl ⟨rfl, rfl, mem, isOpen⟩
  | idle | ends | compiles | bundles => exact .inr rfl

/-- A job publishes, or it does nothing outside. -/
theorem publishes_or_outside_serve (h : p.script = []) (job : Job) :
    p.Publishes (p.serve job) ∨ (p.serve job).outside = p.outside := by
  cases job with
  | loop => exact .inr (outside_serveLoop p)
  | run generation => exact publishes_or_outside_serveRun p generation
  | reap generation => exact .inr (outside_reap p generation)
  | notice watcher =>
      cases watcher with
      | waiter i => exact .inr ((attends_noticeWaiter p i).outside_eq)
      | caller => exact .inr (outside_noticeCaller p)
  | waiter i => exact .inr ((attends_serveWaiter p i).outside_eq)
  | caller => exact .inr (outside_serveCaller h)

end Playground.Pipeline
