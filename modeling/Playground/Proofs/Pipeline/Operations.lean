import Playground.Pipeline.Actions

/-!
# What the operations of a pipeline can do

Most of the operations have many branches and come to few things. An input
leaves the pipeline as it is or does one thing, whatever the reply is. A run
that is served ends, waits for an answer, or publishes, which replaces the output
and ends the run too. The one who halts the pipeline waits, cancels the control
loop, or returns.

Each of these operations is opened here, and what is to be shown of it is shown
of the things that it can come to. It is opened elsewhere only where it matters
which of them is the case.
-/

namespace Playground

/-- Whether a run has ended. -/
def Stage.isOver : Stage → Bool
  | .finished _ => true
  | _ => false

namespace Pipeline

variable {p q : Pipeline}

/-! ## Inputs -/

/-- A pipeline that has taken over a session and has written it to the fragment. -/
def adopted (p : Pipeline) (session : Session) : Pipeline :=
  { p with
    session
    fragment := p.fragment.write (Fragment.encode p.environment.lead session) }

theorem adopt?_eq_some_iff {session : Session} :
    p.adopt? session = some q ↔ p.encoderWorks = true ∧ p.adopted session = q := by
  unfold adopt? adopted
  split
  · next works => simp only [works, Option.some.injEq, true_and]
  · next broken => simp only [broken, Bool.false_eq_true, false_and, reduceCtorEq]

/-- An edit is taken when the text is new, and then it is held back. -/
theorem edit_cases (p : Pipeline) (source : Text) :
    (p.edit source).1 = p ∨ source ≠ p.session.source ∧ p.encoderWorks = true ∧
      (p.edit source).1 = { p.adopted { p.session with source } with
        phase := .debouncing, debouncer := p.debouncer.push p.now source } := by
  unfold edit
  split
  · exact .inl rfl
  · next new =>
      split
      · exact .inl rfl
      · next adopts =>
          obtain ⟨works, rfl⟩ := adopt?_eq_some_iff.mp adopts
          exact .inr ⟨new, works, rfl⟩

/-- Options that are new are asked for at once. -/
theorem setOptions_cases (p : Pipeline) (minify strategy : Option Json)
    (transpile : Option Bool) :
    (p.setOptions minify strategy transpile).1 = p ∨
      ∃ session, withOptions p.session minify strategy transpile = .ok session ∧
        session ≠ p.session ∧ p.encoderWorks = true ∧
        (p.setOptions minify strategy transpile).1 = (p.adopted session).trigger := by
  unfold setOptions
  split
  · exact .inl rfl
  · next session given =>
      split
      · exact .inl rfl
      · next new =>
          split
          · exact .inl rfl
          · next adopts =>
              obtain ⟨works, rfl⟩ := adopt?_eq_some_iff.mp adopts
              exact .inr ⟨session, given, new, works, rfl⟩

/-- For a view nothing is asked. -/
theorem setView_cases (p : Pipeline) (given : Json) :
    (p.setView given).1 = p ∨ ∃ view, view ≠ p.session.view ∧ p.encoderWorks = true ∧
      (p.setView given).1 = p.adopted { p.session with view } := by
  unfold setView
  split
  · exact .inl rfl
  · next view _ =>
      split
      · exact .inl rfl
      · next new =>
          split
          · exact .inl rfl
          · next adopts =>
              obtain ⟨works, rfl⟩ := adopt?_eq_some_iff.mp adopts
              exact .inr ⟨view, new, works, rfl⟩

/-- The session of a fragment is taken over even if it is the old one. The edit that is
held back is dropped, and the document is asked for. -/
theorem load_cases (p : Pipeline) (fragment : Text) :
    let session := Fragment.decode p.environment.lead p.environment.newSession fragment
    p.encoderWorks = false ∧ (p.load fragment).1 = p ∨ p.encoderWorks = true ∧
      (p.load fragment).1 =
        ({ p.adopted session with settled := session.source }.dropEdit).trigger := by
  intro session
  simp only [load]
  split
  · next adopts =>
      refine .inl ⟨Bool.eq_false_iff.mpr fun works => ?_, rfl⟩
      rw [adopt?_eq_some_iff.mpr ⟨works, rfl⟩] at adopts
      cases adopts
  · next adopts =>
      obtain ⟨works, rfl⟩ := adopt?_eq_some_iff.mp adopts
      exact .inr ⟨works, rfl⟩

/-- A control loop that is not there is put in line, and the document is asked for. -/
theorem start_cases (p : Pipeline) :
    p.loop ≠ .off ∧ p.start = p ∨ p.loop = .off ∧
      p.start = ({ p with loop := .created }.schedule [.loop]).trigger := by
  unfold start
  split
  · next off => exact .inr ⟨off, rfl⟩
  · next there => exact .inl ⟨there, rfl⟩

/-- To type into an editor is to edit the document, once for each who listens, as long as the
edit is taken. -/
theorem typeInto_rec {motive : Pipeline → Prop} (p : Pipeline) (i : Nat) (source : Text)
    (told : ∀ editors, motive { p with editors })
    (edits : ∀ q, motive q → motive (q.edit source).1) : motive (p.typeInto i source).1 := by
  unfold typeInto
  split
  · exact told p.editors
  · refine List.foldlRecOn (motive := fun q : Pipeline × Reply => motive q.1) _ _ (told _) ?_
    rintro ⟨q, reply⟩ hq - -
    cases reply with
    | done => exact edits q hq
    | _ => exact hq

/-! ## Publishing -/

/-- The editor that shows the markers breaks. -/
def breaks (p : Pipeline) : Bool :=
  (p.mounted.bind fun i => p.editors[i]?).any fun editor => editor.kind = .broken

theorem markDiagnostics_cases (p : Pipeline) (diagnostics : List Diagnostic) :
    (p.breaks = true ∧ p.markDiagnostics diagnostics = .error Editor.complaint) ∨
      p.breaks = false ∧ ∃ editors, p.markDiagnostics diagnostics = .ok { p with editors } := by
  unfold markDiagnostics
  split
  · next mounted => exact .inr ⟨by simp [breaks, mounted], p.editors, rfl⟩
  · next i mounted =>
      split
      · next found => exact .inr ⟨by simp [breaks, mounted, found], p.editors, rfl⟩
      · next editor found =>
          cases kind : editor.kind with
          | broken =>
              refine .inl ⟨by simp [breaks, mounted, found, kind], ?_⟩
              simp only [Editor.mark, kind]
              rfl
          | memory | markersOnly =>
              refine .inr ⟨by simp [breaks, mounted, found, kind], ?_⟩
              simp only [Editor.mark, kind]
              exact ⟨_, rfl⟩

/-- A publication replaces the output and ends the run. An editor that breaks leaves the phase,
and then nobody is told and the run crashes. -/
theorem publish_frame (p : Pipeline) (run : Run) (result : CompileResult)
    (bundles : List BundleChunk) : ∃ editors,
      p.publish run result bundles = { p with
        output := {
          generation := run.generation
          modules := result.modules
          bundles
          diagnostics := result.diagnostics }
        phase := if p.breaks then .displaying
          else if p.debouncer.isPending then .debouncing else .idle
        editors
        subscriptions := if p.breaks then p.subscriptions
          else (p.notify run.generation).subscriptions
        }.finish run (if p.breaks then some (.broke Editor.complaint) else none) := by
  let shown : Pipeline := { p with
    phase := .displaying
    output := {
      generation := run.generation
      modules := result.modules
      bundles
      diagnostics := result.diagnostics } }
  simp only [publish]
  rcases markDiagnostics_cases shown result.diagnostics with ⟨broken, marks⟩ |
    ⟨works, editors, marks⟩
  · change p.breaks = true at broken
    rw [marks, if_pos broken, if_pos broken, if_pos broken]
    exact ⟨p.editors, rfl⟩
  · change p.breaks = false at works
    have works := Bool.eq_false_iff.mp works
    rw [marks, if_neg works, if_neg works, if_neg works]
    exact ⟨editors, rfl⟩

/-! ## Serving a run -/

/-- What becomes of a pipeline when a run is served. Only a run that calls the engine or
publishes has a say in the phase, and it is the latest. -/
inductive RunServed (p : Pipeline) : Pipeline → Prop
  | idle : RunServed p p
  | ends {run : Run} {latest : Option CompileOptions} {calls : List CompileOptions}
      {log : List LogRecord} (mem : run ∈ p.runs) :
      RunServed p ({ p with latest, calls, log }.finish run none)
  | compiles {run : Run} {calls : List CompileOptions} {await : Await CompilerReply}
      (mem : run ∈ p.runs) :
      RunServed p ({ p with calls }.setStage run.generation (.compiling await))
  | bundles {run : Run} {calls : List CompileOptions} {builds : Nat} {result : CompileResult}
      {await : Await EngineRun} (mem : run ∈ p.runs) (current : run.generation = p.generation) :
      RunServed p ({ p with phase := .bundling, calls, builds }.setStage run.generation
        (.bundling result await))
  | publishes {run : Run} {phase : Phase} {calls : List CompileOptions} {builds : Nat}
      {log : List LogRecord} {result : CompileResult} {bundles : List BundleChunk}
      (mem : run ∈ p.runs) (isOpen : run.stage.isOver = false)
      (current : run.generation = p.generation) :
      RunServed p ({ p with phase, calls, builds, log }.publish run result bundles)

/-- The engine has answered, and the run looks whether it is still the latest. -/
theorem runServed_bundled {run : Run} (mem : run ∈ p.runs) (isOpen : run.stage.isOver = false)
    (result : CompileResult) (engineRun : EngineRun) :
    RunServed p (p.bundled run result engineRun) := by
  simp only [bundled]
  split
  · exact .ends mem
  · next current => exact .publishes mem isOpen (Decidable.of_not_not current)

/-- The compiler has answered, and the run looks whether it is still the latest. If it is, it
still is when the engine answers at once. -/
theorem runServed_compiled {run : Run} {calls : List CompileOptions} (mem : run ∈ p.runs)
    (isOpen : run.stage.isOver = false) (reply : CompilerReply) :
    RunServed p ({ p with calls }.compiled run reply) := by
  unfold compiled
  split
  · simp only []
    split <;> exact .ends mem
  · split
    · exact .ends mem
    · next current =>
        split
        · simp only []
          split
          · simp only [bundled]
            rw [if_neg current]
            exact .publishes mem isOpen (Decidable.of_not_not current)
          · exact .bundles mem (Decidable.of_not_not current)
        · exact .publishes mem isOpen (Decidable.of_not_not current)

theorem runServed (p : Pipeline) (generation : Nat) : RunServed p (p.serveRun generation) := by
  unfold serveRun
  split
  · exact .idle
  · next run found =>
      have mem : run ∈ p.runs := List.mem_of_find?_eq_some found
      split
      · next created =>
          unfold begin
          split
          · exact .ends mem
          · simp only []
            split
            · exact runServed_compiled mem (by rw [created]; rfl) _
            · exact .compiles mem
      · next ready => exact runServed_compiled mem (by rw [ready]; rfl) _
      · next ready => exact runServed_bundled mem (by rw [ready]; rfl) _ _
      · exact .ends mem
      · exact .idle

/-! ## Waiting and halting -/

/-- The gate of the debouncer is shut, and who comes there joins the others. -/
theorem holdUntilSettled_eq_some {i : Nat} (h : p.holdUntilSettled i = some q) :
    ¬ p.debouncer.idle = true ∧ q = { p with
      debouncer := { p.debouncer with waiting := p.debouncer.waiting ++ [i] }
    }.setWaiter i .settled := by
  obtain ⟨debouncer, shut, rfl⟩ := Option.map_eq_some_iff.mp h
  unfold Debouncer.await? at shut
  split at shut
  · cases shut
  · next busy =>
      cases shut
      exact ⟨busy, rfl⟩

/-- Without actions to follow, the one who halts the pipeline just returns. -/
theorem resumeScript_eq {p : Pipeline} (h : p.script = []) :
    p.resumeScript = { p with halt := none }.note .done := by
  rw [resumeScript, h]
  simp only [proceed, note]

theorem script_haltLoop (p : Pipeline) : p.haltLoop.script = p.script := by
  unfold haltLoop
  split <;> rfl

/-- What becomes of a pipeline when the one who halts it is served and no actions are to
follow. It waits on, or cancels the control loop, or returns, because there is no loop or
because the loop has ended. -/
inductive CallerServed (p : Pipeline) : Pipeline → Prop
  | waits : CallerServed p p
  | cancels : CallerServed p p.haltLoop
  | returns : CallerServed p ({ p.haltLoop with halt := none }.note .done)
  | ends : CallerServed p ({ p with loop := .off, halt := none }.note .done)

theorem callerServed {p : Pipeline} (h : p.script = []) : CallerServed p p.serveCaller := by
  unfold serveCaller
  split
  · simp only []
    split
    · exact .cancels
    · rw [resumeScript_eq ((script_haltLoop p).trans h)]
      exact .returns
  · rw [resumeScript_eq (p := { p with loop := .off }) h]
    exact .ends
  · exact .waits

end Pipeline

end Playground
