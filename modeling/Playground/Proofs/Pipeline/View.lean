import Playground.Proofs.Pipeline.Blind

/-!
# The view has no say

Whoever does not see the view cannot tell whether anybody selects one. Two pipelines that he
cannot tell apart stay so whatever happens to both of them, and also if a view is selected in
one of them only.

There is one thing that reads more of a pipeline than he sees, and that is to take over the
session of the current fragment. But the fragment always describes the session, so what is read
there is known already. This is why it belongs to the relation that both fragments do.

It is no matter either how the time passes. The next step of a pipeline, and the time of the
next timer, are those of the blind one.
-/

namespace Playground

/-- Whether a move is to select a view. -/
def Move.selects : Move → Bool
  | .act action => action.selects
  | _ => false

namespace Pipeline

variable {p q : Pipeline}

/-- Whoever does not see the view cannot tell these two apart. -/
structure Alike (p q : Pipeline) : Prop where
  blind : p.blind = q.blind
  describes : p.shared.Describes
  describes' : q.shared.Describes

theorem Alike.symm (h : Alike p q) : Alike q p :=
  ⟨h.blind.symm, h.describes', h.describes⟩

theorem Alike.trans {r : Pipeline} (h : Alike p q) (h' : Alike q r) : Alike p r :=
  ⟨h.blind.trans h'.blind, h.describes, h'.describes'⟩

/-- An action is the same for both. To reload is so because the two fragments describe the two
sessions, which differ in the view only. -/
theorem Alike.act (h : Alike p q) (action : Action) : Alike (p.act action).1 (q.act action).1 := by
  refine ⟨?_, h.describes.turn (shared_act p action), h.describes'.turn (shared_act q action)⟩
  cases action with
  | start =>
      exact (blind_start p).trans ((congrArg Pipeline.start h.blind).trans (blind_start q).symm)
  | stop => exact h.blind
  | edit source => exact congrArg Prod.fst (blind_edit h.blind source)
  | setOptions minify strategy transpile => exact blind_setOptions h.blind minify strategy transpile
  | setView view => exact (blind_setView p view).trans (h.blind.trans (blind_setView q view).symm)
  | load fragment =>
      have decoded : p.shared.decode fragment = q.shared.decode fragment :=
        (congrArg (·.shared.decode fragment) h.blind : p.blind.shared.decode fragment = _)
      exact blind_load h.blind (congrArg Session.blind decoded)
  | reload =>
      have decoded : p.shared.decode p.fragment.current = p.session := h.describes
      have decoded' : q.shared.decode q.fragment.current = q.session := h.describes'
      refine blind_load h.blind ?_
      rw [decoded, decoded']
      exact congrArg Pipeline.session h.blind
  | attach kind => exact congrArg (Pipeline.mount · { kind }) h.blind
  | type editor source => exact blind_typeInto h.blind editor source
  | answerCompiler call reply =>
      exact (blind_answerCompiler p call reply).trans
        ((congrArg (fun r : Pipeline => (r.answerCompiler call reply).1) h.blind).trans
          (blind_answerCompiler q call reply).symm)
  | answerEngine call engineRun =>
      exact (blind_answerEngine p call engineRun).trans
        ((congrArg (fun r : Pipeline => (r.answerEngine call engineRun).1) h.blind).trans
          (blind_answerEngine q call engineRun).symm)
  | wait => exact congrArg Pipeline.wait h.blind
  | subscribe => exact congrArg Pipeline.subscribe h.blind
  | unsubscribe i => exact congrArg (Pipeline.unsubscribe · i) h.blind
  | read i => exact congrArg (fun r : Pipeline => (r.read i).1) h.blind
  | setEncoder works => exact congrArg ({ · with encoderWorks := works }) h.blind

theorem Alike.setView (h : Alike p q) (view : Json) : Alike (p.setView view).1 q :=
  ⟨(blind_setView p view).trans h.blind, h.describes.turn (shared_act p (.setView view)),
    h.describes'⟩

theorem Alike.beginHalt (h : Alike p q) : Alike p.beginHalt q.beginHalt where
  blind := (blind_beginHalt p).trans ((congrArg _ h.blind).trans (blind_beginHalt q).symm)
  describes := (shared_beginHalt p).symm ▸ h.describes
  describes' := (shared_beginHalt q).symm ▸ h.describes'

theorem Alike.note (h : Alike p q) (reply reply' : Reply) : Alike (p.note reply) (q.note reply') :=
  ⟨h.blind, h.describes, h.describes'⟩

/-- The actions that are to follow are known but for the selections among them. -/
theorem Alike.plan (h : Alike p q) {actions actions' : List Action}
    (same : actions.filter (fun action => !action.selects) =
      actions'.filter fun action => !action.selects) :
    Alike { p with script := actions } { q with script := actions' } where
  blind := (congrArg ({ · with script := actions.filter fun action => !action.selects })
    h.blind).trans (congrArg ({ q.blind with script := · }) same)
  describes := h.describes
  describes' := h.describes'

theorem proceed_stop (p : Pipeline) (rest : List Action) :
    p.proceed (.stop :: rest) = if p.beginHalt.halt.isSome then { p.beginHalt with script := rest }
      else (p.beginHalt.note .done).proceed rest := by
  rw [proceed]
  cases held : p.beginHalt.halt <;> simp only [held] <;> rfl

/-- To leave out the selections among some actions is seen by nobody. -/
theorem Alike.proceed {actions : List Action} (h : Alike p q) :
    Alike (p.proceed actions) (q.proceed (actions.filter fun action => !action.selects)) := by
  induction actions generalizing p q with
  | nil => exact ⟨congrArg ({ · with script := [] }) h.blind, h.describes, h.describes'⟩
  | cons action rest ih =>
      have others (other : action.selects = false) (going : action ≠ .stop) :
          Alike (p.proceed (action :: rest))
            (q.proceed ((action :: rest).filter fun action => !action.selects)) := by
        rw [List.filter_cons_of_pos (by rw [other]; rfl)]
        have next := ih ((h.act action).note (p.act action).2 (q.act action).2)
        cases action with
        | stop => exact absurd rfl going
        | _ => exact next
      cases action with
      | setView view =>
          have selected := h.setView view
          exact ih ⟨selected.blind, selected.describes, selected.describes'⟩
      | stop =>
          have begun := h.beginHalt
          have halts : p.beginHalt.halt = q.beginHalt.halt :=
            (congrArg Pipeline.halt begun.blind : p.beginHalt.blind.halt = _)
          rw [List.filter_cons_of_pos rfl, proceed_stop, proceed_stop]
          split
          · next held =>
              -- What is left is kept for later, and the selections are left out of it once more.
              rw [if_pos (halts ▸ held)]
              exact begun.plan (by simp only [List.filter_filter, Bool.and_self])
          · next free =>
              rw [if_neg (halts ▸ free)]
              exact ih (begun.note .done .done)
      | _ => exact others rfl nofun

theorem Alike.self {p : Pipeline} (h : p.shared.Describes) : Alike p p :=
  ⟨rfl, h, h⟩

theorem Alike.proceed_congr {actions actions' : List Action} (h : Alike p q)
    (same : actions.filter (fun action => !action.selects) =
      actions'.filter fun action => !action.selects) :
    Alike (p.proceed actions) (q.proceed actions') := by
  have left : Alike (p.proceed actions) _ := h.proceed
  have right : Alike (q.proceed actions') _ := (Alike.self h.describes').proceed
  rw [same] at left
  exact left.trans right.symm

theorem Alike.resumeScript (h : Alike p q) : Alike p.resumeScript q.resumeScript := by
  have scripts : p.script.filter (fun action => !action.selects) =
      q.script.filter fun action => !action.selects := congrArg script h.blind
  have going : Alike { p with halt := none } { q with halt := none } :=
    ⟨congrArg ({ · with halt := none }) h.blind, h.describes, h.describes'⟩
  exact (going.note .done .done).proceed_congr scripts

theorem serveCaller_eq (p : Pipeline) : p.serveCaller =
    if p.halt = some (.runs 0) then
      if p.haltLoop.halt.isSome then p.haltLoop else p.haltLoop.resumeScript
    else if p.halt = some .loop then { p with loop := .off }.resumeScript
    else p := by
  unfold serveCaller
  split
  · next halting =>
      rw [if_pos halting]
      simp only []
      split
      · next held => exact (if_pos (by rw [held]; rfl)).symm
      · next free => exact (if_neg (by rw [free]; nofun)).symm
  · next halting => rw [if_neg (by rw [halting]; nofun), if_pos halting]
  · next busy still => rw [if_neg busy, if_neg still]

theorem Alike.haltLoop (h : Alike p q) : Alike p.haltLoop q.haltLoop where
  blind := (blind_haltLoop p).trans ((congrArg _ h.blind).trans (blind_haltLoop q).symm)
  describes := shared_eq_of_outside (outside_haltLoop p) ▸ h.describes
  describes' := shared_eq_of_outside (outside_haltLoop q) ▸ h.describes'

theorem Alike.serveCaller (h : Alike p q) : Alike p.serveCaller q.serveCaller := by
  have halts : p.halt = q.halt := (congrArg Pipeline.halt h.blind : p.blind.halt = _)
  have halted := h.haltLoop
  have halts' : p.haltLoop.halt = q.haltLoop.halt :=
    (congrArg Pipeline.halt halted.blind : p.haltLoop.blind.halt = _)
  have off : Alike { p with loop := .off } { q with loop := .off } :=
    ⟨congrArg ({ · with loop := .off }) h.blind, h.describes, h.describes'⟩
  rw [serveCaller_eq, serveCaller_eq, ← halts, ← halts']
  by_cases last : p.halt = some (.runs 0)
  · rw [if_pos last, if_pos last]
    by_cases held : p.haltLoop.halt.isSome = true
    · rw [if_pos held, if_pos held]
      exact halted
    · rw [if_neg held, if_neg held]
      exact halted.resumeScript
  · rw [if_neg last, if_neg last]
    by_cases ended : p.halt = some .loop
    · rw [if_pos ended, if_pos ended]
      exact off.resumeScript
    · rw [if_neg ended, if_neg ended]
      exact h

/-- What does not touch the shared part, and is the same for the blind pipeline. -/
theorem Alike.of_blind {f : Pipeline → Pipeline}
    (blind : ∀ p : Pipeline, (f p).blind = f p.blind)
    (shared : ∀ p : Pipeline, (f p).shared = p.shared) (h : Alike p q) : Alike (f p) (f q) where
  blind := (blind p).trans ((congrArg f h.blind).trans (blind q).symm)
  describes := (shared p).symm ▸ h.describes
  describes' := (shared q).symm ▸ h.describes'

theorem Alike.serve (h : Alike p q) (job : Job) : Alike (p.serve job) (q.serve job) := by
  cases job with
  | loop =>
      exact h.of_blind blind_serveLoop fun r => shared_eq_of_outside (outside_serveLoop r)
  | run generation =>
      exact h.of_blind (blind_serveRun · generation) (shared_serveRun · generation)
  | reap generation =>
      exact h.of_blind (blind_reap · generation) fun r =>
        shared_eq_of_outside (outside_reap r generation)
  | notice watcher =>
      cases watcher with
      | waiter i =>
          exact h.of_blind (blind_noticeWaiter · i) fun r =>
            shared_eq_of_outside (attends_noticeWaiter r i).outside_eq
      | caller =>
          exact h.of_blind blind_noticeCaller fun r =>
            shared_eq_of_outside (outside_noticeCaller r)
  | waiter i =>
      exact h.of_blind (blind_serveWaiter · i) fun r =>
        shared_eq_of_outside (attends_serveWaiter r i).outside_eq
  | caller => exact h.serveCaller

/-! ## Time -/

theorem Alike.rel_of_blind {f : Pipeline → Option Pipeline}
    (blind : ∀ p : Pipeline, f p.blind = (f p).map Pipeline.blind)
    (shared : ∀ {p r : Pipeline}, f p = some r → r.shared = p.shared) (h : Alike p q) :
    Option.Rel Alike (f p) (f q) := by
  have same : (f p).map Pipeline.blind = (f q).map Pipeline.blind := by
    rw [← blind, ← blind, h.blind]
  cases hp : f p <;> cases hq : f q <;> rw [hp, hq] at same
  · exact .none
  · cases same
  · cases same
  · exact .some ⟨Option.some.inj same, (shared hp).symm ▸ h.describes,
      (shared hq).symm ▸ h.describes'⟩

theorem Alike.editDue (h : Alike p q) : Option.Rel Alike p.editDue? q.editDue? :=
  h.rel_of_blind blind_editDue shared_editDue

theorem Alike.answerDue (h : Alike p q) : Option.Rel Alike p.answerDue? q.answerDue? :=
  h.rel_of_blind blind_answerDue shared_answerDue

theorem Alike.step (h : Alike p q) : Option.Rel Alike p.step? q.step? := by
  have line : p.jobs = q.jobs := (congrArg Pipeline.jobs h.blind : p.blind.jobs = _)
  unfold step?
  rw [line]
  cases q.jobs with
  | nil =>
      have edit := h.editDue
      simp only []
      cases hp : p.editDue? <;> cases hq : q.editDue? <;> rw [hp, hq] at edit
      · exact h.answerDue
      · cases edit
      · cases edit
      · exact edit
  | cons job jobs =>
      have rest : Alike { p with jobs } { q with jobs } :=
        ⟨congrArg ({ · with jobs }) h.blind, h.describes, h.describes'⟩
      exact .some (rest.serve job)

theorem Alike.settleWithin (limit : Nat) (h : Alike p q) :
    Alike (Clockwork.settleWithin limit p) (Clockwork.settleWithin limit q) := by
  induction limit generalizing p q with
  | zero => exact h
  | succ limit ih =>
      have step : Option.Rel Alike (Clockwork.step? p) (Clockwork.step? q) := h.step
      unfold Clockwork.settleWithin
      cases hp : Clockwork.step? p <;> cases hq : Clockwork.step? q <;> rw [hp, hq] at step
      · exact h
      · cases step
      · cases step
      · cases step with
        | some next => exact ih next

theorem Alike.setNow (h : Alike p q) (now : Nat) : Alike { p with now } { q with now } :=
  ⟨congrArg ({ · with now }) h.blind, h.describes, h.describes'⟩

theorem Alike.settleAt (h : Alike p q) (time : Nat) :
    Alike (Clockwork.settle (Clockwork.setNow time p))
      (Clockwork.settle (Clockwork.setNow time q)) :=
  (h.setNow time).settleWithin Clockwork.patience

theorem Alike.passWithin (limit target : Nat) (h : Alike p q) :
    Alike (Clockwork.passWithin limit target p) (Clockwork.passWithin limit target q) := by
  induction limit generalizing p q with
  | zero => exact h.settleAt target
  | succ limit ih =>
      have timers : Clockwork.due? p = Clockwork.due? q :=
        (congrArg Pipeline.due? h.blind : p.blind.due? = _)
      rw [Clockwork.passWithin.eq_def, Clockwork.passWithin.eq_def, ← timers]
      cases Clockwork.due? p with
      | none => exact h.settleAt target
      | some time =>
          simp only []
          split
          · exact ih (h.settleAt time)
          · exact h.settleAt target

end Pipeline

/-! ## Courses and visits -/

/-- What can happen from outside, with all that follows from it by itself. -/
inductive Occasion where
  /-- Someone acts, perhaps several times in a row. -/
  | visit (actions : List Action)
  /-- Time passes. -/
  | pause (ms : Nat)

/-- An occasion without the selections of a view. -/
def Occasion.blind : Occasion → Occasion
  | .visit actions => .visit (actions.filter fun action => !action.selects)
  | .pause ms => .pause ms

namespace Pipeline

variable {p q : Pipeline}

/-- The pipeline after an occasion, when everything that follows has happened. -/
def attend (p : Pipeline) : Occasion → Pipeline
  | .visit actions => (p.run actions).1
  | .pause ms => Clockwork.pass ms p

theorem Alike.after (h : Alike p q) (move : Move) : Alike (p.after move) (q.after move) := by
  cases move with
  | act action => exact h.act action
  | halt =>
      have halts : p.halt = q.halt := (congrArg Pipeline.halt h.blind : p.blind.halt = _)
      simp only [Pipeline.after, halts]
      split
      · exact h.proceed_congr rfl
      · exact h
  | job =>
      have line : p.jobs = q.jobs := (congrArg Pipeline.jobs h.blind : p.blind.jobs = _)
      simp only [Pipeline.after, line]
      split
      · exact h
      · next job jobs _ =>
          have rest : Alike { p with jobs } { q with jobs } :=
            ⟨congrArg ({ · with jobs }) h.blind, h.describes, h.describes'⟩
          exact rest.serve job
  | editDue =>
      have due := h.editDue
      simp only [Pipeline.after]
      cases hp : p.editDue? <;> cases hq : q.editDue? <;> rw [hp, hq] at due <;> cases due
      · exact h
      · next due => exact due
  | answerDue =>
      have due := h.answerDue
      simp only [Pipeline.after]
      cases hp : p.answerDue? <;> cases hq : q.answerDue? <;> rw [hp, hq] at due <;> cases due
      · exact h
      · next due => exact due
  | clock now => exact h.setNow now

theorem Alike.follow (h : Alike p q) (moves : List Move) :
    Alike (p.follow moves) (q.follow (moves.filter fun move => !move.selects)) := by
  induction moves with
  | nil => exact h
  | cons move before ih =>
      cases selects : move.selects with
      | true =>
          rw [List.filter_cons_of_neg (by rw [selects]; nofun)]
          unfold Move.selects Action.selects at selects
          split at selects
          · split at selects
            · next view => exact ih.setView view
            · cases selects
          · cases selects
      | false =>
          rw [List.filter_cons_of_pos (by rw [selects]; rfl)]
          exact ih.after move

theorem Alike.attend (h : Alike p q) (occasion : Occasion) :
    Alike (p.attend occasion) (q.attend occasion.blind) := by
  cases occasion with
  | visit actions =>
      have begun : Alike { p with replies := [] } { q with replies := [] } :=
        ⟨h.blind, h.describes, h.describes'⟩
      exact begun.proceed.settleWithin Clockwork.patience
  | pause ms =>
      have clock : p.now = q.now := (congrArg Pipeline.now h.blind : p.blind.now = _)
      have passed : Clockwork.pass ms p =
          Clockwork.passWithin Clockwork.patience (q.now + ms) p :=
        congrArg (fun now => Clockwork.passWithin Clockwork.patience (now + ms) p) clock
      rw [Pipeline.attend, passed]
      exact h.passWithin Clockwork.patience (q.now + ms)

theorem Alike.foldl_attend (h : Alike p q) (occasions : List Occasion) :
    Alike (occasions.foldl Pipeline.attend p)
      ((occasions.map Occasion.blind).foldl Pipeline.attend q) := by
  induction occasions generalizing p q with
  | nil => exact h
  | cons occasion rest ih => exact ih (h.attend occasion)

/-! ## The view has no say -/

/-- Two pipelines agree in all but the view. -/
structure Agrees (p q : Pipeline) : Prop where
  now : p.now = q.now
  generation : p.generation = q.generation
  output : p.output = q.output
  phase : p.phase = q.phase
  calls : p.calls = q.calls
  builds : p.builds = q.builds
  /-- How far each run is, and which answers it waits for. -/
  runs : p.runs = q.runs
  /-- The markers of each editor, and its text. -/
  editors : p.editors = q.editors
  /-- What is still to be read of the publications. -/
  subscriptions : p.subscriptions = q.subscriptions
  waiters : p.waiters = q.waiters
  log : p.log = q.log
  source : p.session.source = q.session.source
  minify : p.session.minify = q.session.minify
  strategy : p.session.strategy = q.session.strategy
  transpile : p.session.transpile = q.session.transpile

theorem Alike.agrees (h : Alike p q) : p.Agrees q := by
  have field {α : Type} (f : Pipeline → α) : f p.blind = f q.blind := congrArg f h.blind
  exact {
    now := field now
    generation := field generation
    output := field output
    phase := field phase
    calls := field calls
    builds := field builds
    runs := field runs
    editors := field editors
    subscriptions := field subscriptions
    waiters := field waiters
    log := field log
    source := field (·.session.source)
    minify := field (·.session.minify)
    strategy := field (·.session.strategy)
    transpile := field (·.session.transpile) }

variable {environment : Environment} {window : Int} {fragment fragment' : Text}

theorem alike_new (hp : new environment window fragment = .ok p)
    (hq : new environment window fragment' = .ok q) (same : p.session.blind = q.session.blind) :
    Alike p q := by
  refine ⟨?_, describes_follow hp [], describes_follow hq []⟩
  unfold new Debouncer.ofWindow at hp hq
  cases window with
  | negSucc => cases hp
  | ofNat window =>
      cases hp
      cases hq
      exact congrArg (fun session : Session => ({
        environment
        session
        settled := session.source
        debouncer := { window }
        fragment := { current := Fragment.encode environment.lead session } } : Pipeline)) same

/-- Two pipelines whose first sessions differ in the view only agree in all but the view after
moves that differ only in the selections of a view among them, in whatever order the moves are
made. They agree just as well after visits and pauses with which everything happens that
follows, and then the selections may stand anywhere among the actions of each visit. -/
theorem ignores_view (hp : new environment window fragment = .ok p)
    (hq : new environment window fragment' = .ok q) (same : p.session.blind = q.session.blind) :
    (∀ moves moves' : List Move, moves.filter (fun move => !move.selects) =
        moves'.filter (fun move => !move.selects) → (p.follow moves).Agrees (q.follow moves')) ∧
      ∀ occasions occasions' : List Occasion,
        occasions.map Occasion.blind = occasions'.map Occasion.blind →
          (occasions.foldl attend p).Agrees (occasions'.foldl attend q) := by
  have alike := alike_new hp hq same
  have left := Alike.self alike.describes
  refine ⟨fun moves moves' hm => ?_, fun occasions occasions' ho => ?_⟩
  · have blinded := alike.follow moves
    rw [hm] at blinded
    exact (blinded.trans ((Alike.self alike.describes').follow moves').symm).agrees
  · have blinded := alike.foldl_attend occasions
    rw [ho] at blinded
    exact (blinded.trans ((Alike.self alike.describes').foldl_attend occasions').symm).agrees

/-- One begins with the modules in view and never selects anything. The other begins with the
bundles, and selects the modules and then the bundles again. Both publish the same. -/
theorem ignores_view_of_bundles :
    let bundles : Session := { source := [], view := .bundles }
    ∃ p q, new .prompt 0 [] = .ok p ∧
      new .prompt 0 (Fragment.encode Settings.fragmentLead bundles) = .ok q ∧
      let p' := p.follow [.job, .job, .act .start]
      let q' := q.follow [.job, .act (.setView (.str (text "bundles"))), .job, .act .start,
        .act (.setView (.str (text "modules")))]
      p'.session.view ≠ q'.session.view ∧ p'.output.generation = 1 ∧ p'.Agrees q' := by
  intro bundles
  have opened : new .prompt 0 (Fragment.encode Settings.fragmentLead bundles) = .ok {
      environment := .prompt
      session := bundles
      settled := []
      debouncer := { window := 0 }
      fragment := { current := Fragment.encode Settings.fragmentLead bundles } } := by
    have read : Fragment.decode Environment.prompt.lead Environment.prompt.newSession
        (Fragment.encode Environment.prompt.lead bundles) = bundles :=
      Fragment.decode_encode Environment.prompt.lead Environment.prompt.newSession bundles
    rw [new]
    have lead : Settings.fragmentLead = Environment.prompt.lead := rfl
    rw [lead, read]
    rfl
  refine ⟨_, _, rfl, opened, by decide +kernel, by decide, ?_⟩
  exact (@ignores_view _ _ .prompt 0 [] (Fragment.encode Settings.fragmentLead bundles) rfl
    opened rfl).1 _ _ rfl

end Pipeline

end Playground
