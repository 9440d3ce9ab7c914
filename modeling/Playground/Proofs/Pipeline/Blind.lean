import Playground.Proofs.Pipeline.Persistence

/-!
# What is seen by one who does not see the view

The view is a part of the session, and so it is carried wherever the session is: every
trigger has a copy of it, and it is written to the fragment and read back. In the blind
pipeline the views are blotted out everywhere, and what is left is what can be seen by
whoever does not see the view.

Each operation that a pipeline does inside is the same operation on the blind pipeline. The
inputs write to the fragment, which the blind pipeline does not have as it is, so of them it
is only said that they do the same to two pipelines that cannot be told apart. To select a
view is nothing at all to the blind pipeline.
-/

namespace Playground

/-- A session without its view. -/
def Session.blind (s : Session) : Session :=
  { s with view := .modules }

/-- A trigger without its view. -/
def Trigger.blind (t : Trigger) : Trigger :=
  { t with session := t.session.blind }

/-- Whether an action is to select a view. -/
def Action.selects : Action → Bool
  | .setView _ => true
  | _ => false

namespace Pipeline

variable {p q : Pipeline}

/-- What a pipeline is for one who does not see the view. What actions came to is left out,
because there is one reply for each selection. -/
def blind (p : Pipeline) : Pipeline :=
  { p with
    session := p.session.blind
    queue := p.queue.map Trigger.blind
    fragment := { current := Fragment.encode p.environment.lead p.session.blind }
    script := p.script.filter fun action => !action.selects
    replies := [] }

/-! ## Operations inside -/

@[simp] theorem blind_dropEdit (p : Pipeline) : p.dropEdit.blind = p.blind.dropEdit := rfl

@[simp] theorem blind_finish (p : Pipeline) (run : Run) (crash : Option Failure) :
    (p.finish run crash).blind = p.blind.finish run crash := rfl

@[simp] theorem blind_settlePhase (p : Pipeline) : p.settlePhase.blind = p.blind.settlePhase := by
  unfold settlePhase
  rw [apply_ite blind, apply_ite blind]
  rfl

/-! The control loop -/

@[simp] theorem blind_trigger (p : Pipeline) : p.trigger.blind = p.blind.trigger := by
  have queue : (p.queue ++ [(⟨p.session, p.settled⟩ : Trigger)]).map Trigger.blind =
      p.blind.queue ++ [⟨p.blind.session, p.blind.settled⟩] := List.map_append
  have same : p.blind.loop = p.loop := rfl
  simp only [trigger, same]
  cases p.loop <;> simp only [schedule, blind, queue]

theorem blind_dispatch (p : Pipeline) (t : Trigger) :
    (p.dispatch t).blind = p.blind.dispatch t.blind := by
  unfold dispatch
  rw [apply_ite blind, blind_settlePhase]
  rfl

theorem blind_foldl_dispatch (queue : List Trigger) (p : Pipeline) :
    (queue.foldl dispatch p).blind = (queue.map Trigger.blind).foldl dispatch p.blind := by
  induction queue generalizing p with
  | nil => rfl
  | cons t rest ih => rw [List.foldl_cons, ih, blind_dispatch, List.map_cons, List.foldl_cons]

theorem blind_consume (p : Pipeline) : p.consume.blind = p.blind.consume := by
  have triggers : p.blind.queue = p.queue.map Trigger.blind := rfl
  unfold consume
  rw [triggers]
  cases queue : p.queue with
  | nil => rfl
  | cons t rest =>
      have folds := blind_foldl_dispatch (t :: rest) { p with queue := [] }
      exact congrArg (fun q : Pipeline =>
        ({ q with queueWaiting := [] }.schedule (q.queueWaiting.map .waiter))) folds

theorem blind_serveLoop (p : Pipeline) : p.serveLoop.blind = p.blind.serveLoop := by
  have same : p.blind.loop = p.loop := rfl
  simp only [serveLoop, same, ← blind_consume]
  cases p.loop <;> rfl

/-! Runs -/

theorem blind_markDiagnostics (p : Pipeline) (diagnostics : List Diagnostic) :
    p.blind.markDiagnostics diagnostics = (p.markDiagnostics diagnostics).map blind := by
  have mounted : p.blind.mounted = p.mounted := rfl
  have editors : p.blind.editors = p.editors := rfl
  simp only [markDiagnostics, mounted, editors]
  cases p.mounted with
  | none => rfl
  | some i =>
      cases found : p.editors[i]? with
      | none => simp only [found]; rfl
      | some editor =>
          simp only [found]
          cases editor.mark diagnostics <;> rfl

theorem blind_publish (p : Pipeline) (run : Run) (result : CompileResult)
    (bundles : List BundleChunk) :
    (p.publish run result bundles).blind = p.blind.publish run result bundles := by
  let shown (p : Pipeline) : Pipeline := { p with
    phase := .displaying
    output := {
      generation := run.generation
      modules := result.modules
      bundles
      diagnostics := result.diagnostics } }
  have marks : (shown p.blind).markDiagnostics result.diagnostics =
      ((shown p).markDiagnostics result.diagnostics).map blind :=
    blind_markDiagnostics (shown p) result.diagnostics
  simp only [publish]
  rw [marks]
  cases marked : (shown p).markDiagnostics result.diagnostics <;> rfl

theorem blind_bundled (p : Pipeline) (run : Run) (result : CompileResult)
    (engineRun : EngineRun) :
    (p.bundled run result engineRun).blind = p.blind.bundled run result engineRun := by
  simp only [bundled]
  rw [apply_ite blind, blind_publish]
  rfl

theorem blind_compiled (p : Pipeline) (run : Run) (reply : CompilerReply) :
    (p.compiled run reply).blind = p.blind.compiled run reply := by
  unfold compiled
  cases reply.result with
  | error failure =>
      simp only [blind_finish, apply_ite blind]
      rfl
  | ok result =>
      simp only [apply_ite blind, blind_publish, blind_finish]
      refine ite_congr rfl (fun _ => rfl) fun _ => ite_congr rfl (fun _ => ?_) fun _ => rfl
      have same : (p.blind.environment.engine result.modules).await p.blind.now p.blind.builds =
          (p.environment.engine result.modules).await p.now p.builds := rfl
      rw [same]
      cases (p.environment.engine result.modules).await p.now p.builds with
      | ready engineRun => exact blind_bundled _ run result engineRun
      | held call => rfl
      | «at» time answer => rfl

theorem blind_begin (p : Pipeline) (run : Run) : (p.begin run).blind = p.blind.begin run := by
  have same : p.blind.environment = p.environment := rfl
  unfold begin
  rw [same]
  cases p.environment.compiler with
  | none => rfl
  | some compiler =>
      have same : p.blind.calls = p.calls := rfl
      have clock : p.blind.now = p.now := rfl
      simp only [same, clock]
      cases (compiler run.options).await p.now p.calls.length with
      | ready reply => exact blind_compiled _ run reply
      | held call => rfl
      | «at» time answer => rfl

theorem blind_serveRun (p : Pipeline) (generation : Nat) :
    (p.serveRun generation).blind = p.blind.serveRun generation := by
  have same : p.blind.run? generation = p.run? generation := rfl
  unfold serveRun
  rw [same]
  cases p.run? generation with
  | none => rfl
  | some run =>
      simp only []
      split
      · exact blind_begin p run
      · exact blind_compiled p run _
      · exact blind_bundled p run _ _
      · rfl
      · rfl

theorem blind_reap (p : Pipeline) (generation : Nat) :
    (p.reap generation).blind = p.blind.reap generation := by
  have same : p.blind.run? generation = p.run? generation := rfl
  simp only [reap, blind_settlePhase, same]
  split <;> rfl

/-! Those who wait -/

theorem blind_holdUntilSettled (p : Pipeline) (i : Nat) :
    p.blind.holdUntilSettled i = (p.holdUntilSettled i).map blind := by
  have same : p.blind.debouncer = p.debouncer := rfl
  unfold holdUntilSettled
  rw [same]
  cases p.debouncer.await? i <;> rfl

theorem blind_passRuns (p : Pipeline) (i : Nat) :
    (p.passRuns i).blind = p.blind.passRuns i := by
  have runs : p.blind.runs = p.runs := rfl
  have queue : p.blind.queue.isEmpty = p.queue.isEmpty := List.isEmpty_map
  have debouncer : p.blind.debouncer = p.debouncer := rfl
  have loop : p.blind.loop = p.loop := rfl
  unfold passRuns
  rw [runs, queue, debouncer, loop, blind_holdUntilSettled, apply_ite blind, apply_ite blind]
  cases p.holdUntilSettled i with
  | none => simp only [Option.map_none, apply_ite blind]; rfl
  | some q => rfl

theorem blind_passQueue (p : Pipeline) (i : Nat) :
    (p.passQueue i).blind = p.blind.passQueue i := by
  have queue : p.blind.queue.isEmpty = p.queue.isEmpty := List.isEmpty_map
  unfold passQueue
  rw [queue, apply_ite blind, apply_ite blind, blind_passRuns]
  rfl

theorem blind_serveWaiter (p : Pipeline) (i : Nat) :
    (p.serveWaiter i).blind = p.blind.serveWaiter i := by
  have same : p.blind.waiters = p.waiters := rfl
  unfold serveWaiter
  rw [same]
  split
  · unfold passDebouncer
    rw [blind_holdUntilSettled]
    cases p.holdUntilSettled i with
    | none => exact blind_passQueue p i
    | some q => rfl
  · exact blind_passQueue p i
  · exact blind_passRuns p i
  all_goals rfl

theorem blind_noticeWaiter (p : Pipeline) (i : Nat) :
    (p.noticeWaiter i).blind = p.blind.noticeWaiter i := by
  have same : p.blind.waiters = p.waiters := rfl
  unfold noticeWaiter
  rw [same]
  split <;> rfl

/-! Halting -/

theorem blind_cancelRun (p : Pipeline) (run : Run) :
    (p.cancelRun run).blind = p.blind.cancelRun run := by
  unfold cancelRun
  split <;> rfl

theorem blind_foldl_cancelRun (runs : List Run) (p : Pipeline) :
    (runs.foldl cancelRun p).blind = runs.foldl cancelRun p.blind := by
  induction runs generalizing p with
  | nil => rfl
  | cons run rest ih => rw [List.foldl_cons, ih, blind_cancelRun, List.foldl_cons]

theorem blind_haltLoop (p : Pipeline) : p.haltLoop.blind = p.blind.haltLoop := by
  have same : p.blind.loop = p.loop := rfl
  unfold haltLoop
  rw [same]
  split <;> rfl

theorem blind_beginHalt (p : Pipeline) : p.beginHalt.blind = p.blind.beginHalt := by
  have cancelled : (p.dropEdit.runs.foldl cancelRun p.dropEdit).blind =
      p.blind.dropEdit.runs.foldl cancelRun p.blind.dropEdit :=
    blind_foldl_cancelRun p.dropEdit.runs p.dropEdit
  simp only [beginHalt]
  rw [apply_ite blind, blind_haltLoop, ← cancelled]
  rfl

theorem blind_noticeCaller (p : Pipeline) : p.noticeCaller.blind = p.blind.noticeCaller := by
  have same : p.blind.halt = p.halt := rfl
  unfold noticeCaller
  rw [same]
  split <;> rfl

/-! Timers -/

theorem blind_editDue (p : Pipeline) : p.blind.editDue? = p.editDue?.map blind := by
  have same : p.blind.debouncer.take? p.blind.now = p.debouncer.take? p.now := rfl
  unfold editDue?
  rw [same]
  cases p.debouncer.take? p.now with
  | none => rfl
  | some taken =>
      have triggers := blind_trigger { p with debouncer := taken.2, settled := taken.1 }
      exact congrArg (fun q : Pipeline => some (q.release q.debouncer.signal)) triggers.symm

theorem blind_answerDue (p : Pipeline) : p.blind.answerDue? = p.answerDue?.map blind := by
  have same : p.blind.runs = p.runs := rfl
  have clock : p.blind.now = p.now := rfl
  unfold answerDue?
  rw [same, clock, List.map_findSome?]
  refine congrArg (List.findSome? · p.runs) (funext fun run => ?_)
  rw [Function.comp_apply, Option.map_map]
  rfl

/-! ## Inputs -/

theorem blind_adopt (p : Pipeline) (s : Session) :
    (p.adopt? s).map blind = if p.blind.encoderWorks then some { p.blind with
      session := s.blind
      fragment := { current := Fragment.encode p.blind.environment.lead s.blind } }
    else none := by
  unfold adopt?
  rw [apply_ite (Option.map blind)]
  rfl

/-- Whoever does not see the view cannot tell apart two pipelines that adopt sessions that he
cannot tell apart. -/
theorem adopt_cases (h : p.blind = q.blind) {s t : Session} (hs : s.blind = t.blind) :
    (p.adopt? s = none ∧ q.adopt? t = none) ∨
      ∃ p' q', p.adopt? s = some p' ∧ q.adopt? t = some q' ∧ p'.blind = q'.blind := by
  have adopts : (p.adopt? s).map blind = (q.adopt? t).map blind := by
    rw [blind_adopt, blind_adopt, h, hs]
  cases hp : p.adopt? s <;> cases hq : q.adopt? t <;> rw [hp, hq] at adopts
  · exact .inl ⟨rfl, rfl⟩
  · cases adopts
  · cases adopts
  · exact .inr ⟨_, _, rfl, rfl, Option.some.inj adopts⟩

theorem blind_edit (h : p.blind = q.blind) (source : Text) :
    (p.edit source).map blind id = (q.edit source).map blind id := by
  have same : p.session.source = q.session.source :=
    (congrArg (·.session.source) h : p.blind.session.source = q.blind.session.source)
  have edited : ({ p.session with source } : Session).blind =
      ({ q.session with source } : Session).blind :=
    (congrArg ({ ·.session with source }) h :
      ({ p.blind.session with source } : Session) = { q.blind.session with source })
  unfold edit
  rw [same]
  split
  · exact Prod.ext h rfl
  · rcases adopt_cases h edited with ⟨hp, hq⟩ | ⟨p', q', hp, hq, h'⟩
    · rw [hp, hq]
      exact Prod.ext h rfl
    · rw [hp, hq]
      exact Prod.ext (congrArg (fun r : Pipeline => { r with
        phase := .debouncing, debouncer := r.debouncer.push r.now source }) h') rfl

theorem blind_typeInto (h : p.blind = q.blind) (i : Nat) (source : Text) :
    (p.typeInto i source).1.blind = (q.typeInto i source).1.blind := by
  have same : p.editors = q.editors :=
    (congrArg editors h : p.blind.editors = q.blind.editors)
  unfold typeInto
  rw [same]
  split
  · exact h
  · next editor _ =>
      refine congrArg Prod.fst (List.foldl_rel (r := fun a b : Pipeline × Reply =>
        a.map blind id = b.map blind id) ?_ ?_)
      · exact Prod.ext
          (congrArg ({ · with editors := q.editors.set i (editor.setText source) }) h) rfl
      · rintro - - ⟨p', reply⟩ ⟨q', reply'⟩ h'
        obtain rfl : reply = reply' := congrArg Prod.snd h'
        cases reply with
        | done => exact blind_edit (congrArg Prod.fst h') source
        | _ => exact h'

/-- The view passes through a change of options as it is. -/
theorem withOptions_view (s : Session) (minify strategy : Option Json)
    (transpile : Option Bool) (view : View) :
    withOptions { s with view } minify strategy transpile =
      (withOptions s minify strategy transpile).map ({ · with view }) := by
  simp only [withOptions, bind, Except.bind, pure, Except.pure]
  repeat' split
  all_goals rfl

/-- Changed options are another session for the one exactly if they are for the other. -/
theorem blind_setOptions (h : p.blind = q.blind) (minify strategy : Option Json)
    (transpile : Option Bool) :
    (p.setOptions minify strategy transpile).1.blind =
      (q.setOptions minify strategy transpile).1.blind := by
  have sessions : p.session.blind = q.session.blind := congrArg session h
  have differ : q.session = { p.session with view := q.session.view } :=
    (congrArg ({ · with view := q.session.view }) sessions.symm :
      ({ q.session with view := q.session.view } : Session) = _)
  have chosen := withOptions_view p.session minify strategy transpile q.session.view
  have kept := withOptions_view p.session minify strategy transpile p.session.view
  rw [← differ] at chosen
  unfold setOptions
  rw [chosen]
  cases given : withOptions p.session minify strategy transpile with
  | error e => exact h
  | ok s =>
      rw [given] at kept
      have same : s = p.session ↔ { s with view := q.session.view } = q.session := by
        rw [differ]
        refine ⟨fun hs => by rw [hs], fun hs => ?_⟩
        rw [Except.ok.inj kept]
        exact (congrArg ({ · with view := p.session.view }) hs :
          ({ s with view := p.session.view } : Session) = _)
      by_cases unchanged : s = p.session
      · simp only [Except.map, if_pos unchanged, if_pos (same.mp unchanged)]
        exact h
      · simp only [Except.map, if_neg unchanged, if_neg (mt same.mpr unchanged)]
        rcases adopt_cases h (s := s) (t := { s with view := q.session.view }) rfl with
          ⟨hp, hq⟩ | ⟨p', q', hp, hq, h'⟩
        · rw [hp, hq]
          exact h
        · rw [hp, hq]
          simp only [blind_trigger, h']

/-- To select a view is nothing to one who does not see it. -/
theorem blind_setView (p : Pipeline) (given : Json) : (p.setView given).1.blind = p.blind := by
  rcases p.setView_cases given with h | ⟨_, -, -, h⟩ <;> rw [h]
  rfl

theorem load_eq (p : Pipeline) (fragment : Text) :
    (p.load fragment).1 = match p.adopt? (p.shared.decode fragment) with
      | none => p
      | some q => ({ q with settled := (p.shared.decode fragment).source }.dropEdit).trigger := by
  have decoded : p.shared.decode fragment =
      Fragment.decode p.environment.lead p.environment.newSession fragment := rfl
  simp only [load, ← decoded]
  cases p.adopt? (p.shared.decode fragment) <;> rfl

theorem blind_load (h : p.blind = q.blind) {f g : Text}
    (same : (p.shared.decode f).blind = (q.shared.decode g).blind) :
    (p.load f).1.blind = (q.load g).1.blind := by
  have sources : (p.shared.decode f).source = (q.shared.decode g).source :=
    (congrArg Session.source same : (p.shared.decode f).blind.source = _)
  rw [load_eq, load_eq, sources]
  rcases adopt_cases h same with ⟨hp, hq⟩ | ⟨p', q', hp, hq, h'⟩
  · rw [hp, hq]
    exact h
  · rw [hp, hq]
    simp only [blind_trigger, blind_dropEdit]
    exact congrArg (fun r : Pipeline =>
      ({ r with settled := (q.shared.decode g).source }.dropEdit).trigger) h'

theorem blind_start (p : Pipeline) : p.start.blind = p.blind.start := by
  have same : p.blind.loop = p.loop := rfl
  unfold start
  rw [same]
  split
  · exact blind_trigger ({ p with loop := .created }.schedule [.loop])
  · rfl

theorem blind_answerCompiler (p : Pipeline) (call : Nat) (reply : CompilerReply) :
    (p.answerCompiler call reply).1.blind = (p.blind.answerCompiler call reply).1 := by
  have same : p.blind.runs = p.runs := rfl
  simp only [answerCompiler, same]
  split <;> rfl

theorem blind_answerEngine (p : Pipeline) (call : Nat) (engineRun : EngineRun) :
    (p.answerEngine call engineRun).1.blind = (p.blind.answerEngine call engineRun).1 := by
  have same : p.blind.runs = p.runs := rfl
  simp only [answerEngine, same]
  split <;> rfl

end Pipeline

end Playground
