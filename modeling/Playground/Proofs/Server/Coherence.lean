import Playground.Proofs.Pipeline.Requests
import Playground.Proofs.Server.Visits

/-!
# The session of a server stays coherent

The text of the document is held twice, by the editor and by the session, and it
flows both ways: a new text is put into the editor, which hands it to the session,
while a restored session is put into the editor, which hands it back. What is
shown of a compilation is held twice too, as diagnostics and as markers.

The two copies agree after every event, not just when everything has come to
rest. Only visits change the text, and a visit is made without a break. Only a
publication changes the diagnostics, and the one editor of a server does not
break, so the markers change along with them.

An edit that is held back was pushed by the latest request that changed the
document. To restore a session drops it, and the document that is shown in the
editor then is that of the session, which is not held back again. So whatever is
given out later was set by a request after that.
-/

namespace Playground

open Server (Event editor)

namespace Pipeline

variable {p q : Pipeline} {move : Move}

/-- The editor that a server has when its session and its output are these. -/
def editorFor (session : Session) (output : Output) : Editor Unit where
  text := session.source
  markers := output.diagnostics.map Marker.ofDiagnostic
  listeners := [()]

/-- The one editor of a server shows the document of the session, and a marker
for each diagnostic of the output. -/
structure Coherent (p : Pipeline) : Prop where
  script : p.script = []
  encoder : p.encoderWorks = true
  mounted : p.mounted = some editor
  editors : p.editors = [editorFor p.session p.output]

theorem Coherent.of_outside (h : p.Coherent) (outside : q.outside = p.outside)
    (script : q.script = []) : q.Coherent where
  script := script
  encoder := (congrArg Pipeline.encoderWorks outside :).trans h.encoder
  mounted := (congrArg Pipeline.mounted outside :).trans h.mounted
  editors := by
    have session : q.outside.session = p.outside.session := congrArg _ outside
    have output : q.outside.output = p.outside.output := congrArg _ outside
    change q.session = p.session at session
    change q.output = p.output at output
    rw [session, output]
    exact (congrArg Pipeline.editors outside :).trans h.editors

theorem script_after (h : p.script = []) (move : Move) : (p.after move).script = [] :=
  (core_turn p move h).same.2.trans h

theorem script_trigger (p : Pipeline) : p.trigger.script = p.script := by
  simp only [Pipeline.trigger]
  split <;> rfl

theorem Coherent.trigger (h : p.Coherent) : p.trigger.Coherent :=
  h.of_outside (outside_trigger p) ((script_trigger p).trans h.script)

/-! ## Publications -/

/-- With a publication the markers change along with the diagnostics. -/
theorem Coherent.publishes (h : p.Coherent) (publishes : p.Publishes q)
    (script : q.script = []) : q.Coherent := by
  cases publishes with
  | @intro base run result bundles outside _ _ _ =>
      obtain ⟨-, encoder, mounted, editors⟩ :=
        (h.of_outside (q := { base with script := [] }) outside rfl)
      change base.encoderWorks = true at encoder
      change base.mounted = some editor at mounted
      change base.editors = [editorFor base.session base.output] at editors
      have shown : base.publish run result bundles = ({ base with
          phase := if base.debouncer.isPending then .debouncing else .idle
          output := {
            generation := run.generation
            modules := result.modules
            bundles
            diagnostics := result.diagnostics }
          editors := [{ editorFor base.session base.output with
            markers := result.diagnostics.map Marker.ofDiagnostic }]
          subscriptions := (base.notify run.generation).subscriptions } : Pipeline).finish
            run none := by
        simp only [publish, markDiagnostics, mounted, editors]
        rfl
      rw [shown] at script ⊢
      exact ⟨script, encoder, mounted, rfl⟩

/-! ## What goes on behind the scenes -/

theorem Coherent.editDue (h : p.Coherent) : (p.after .editDue).Coherent := by
  rcases editDue_cases p with ⟨same, -, -⟩ | ⟨time, source, -, -, -, after⟩
  · exact same.symm ▸ h
  have before : ({ p with
      debouncer := { p.debouncer with held := none }
      settled := source } : Pipeline).Coherent := ⟨h.script, h.encoder, h.mounted, h.editors⟩
  have triggered := before.trigger
  rw [after]
  exact ⟨triggered.script, triggered.encoder, triggered.mounted, triggered.editors⟩

theorem Coherent.after (h : p.Coherent) (background : move.isBackground = true) :
    (p.after move).Coherent := by
  have script := script_after h.script move
  cases move with
  | act action =>
      cases action with
      | answerCompiler call reply =>
          exact h.of_outside (outside_answerCompiler p call reply) script
      | answerEngine call run => exact h.of_outside (outside_answerEngine p call run) script
      | read i => exact ⟨script, h.encoder, h.mounted, h.editors⟩
      | _ => cases background
  | halt => cases background
  | job =>
      cases line : p.jobs with
      | nil =>
          have same : p.after .job = p := by simp only [Pipeline.after, line]
          exact same.symm ▸ h
      | cons job jobs =>
          have behind : ({ p with jobs } : Pipeline).Coherent :=
            h.of_outside rfl h.script
          rw [after_job line] at script ⊢
          rcases publishes_or_outside_serve (p := { p with jobs }) h.script job with
            publishes | outside
          · exact behind.publishes publishes script
          · exact behind.of_outside outside script
  | editDue => exact h.editDue
  | answerDue =>
      simp only [Pipeline.after] at script ⊢
      cases due : p.answerDue? with
      | none => exact h
      | some q =>
          rw [due] at script
          exact h.of_outside (outside_answerDue due) script
  | clock now => exact ⟨script, h.encoder, h.mounted, h.editors⟩

/-! ## Visits -/

/-- A new text is shown in the editor and taken over by the session. It is held
back, unless it is the old one. -/
theorem typeInto_eq {e : Editor Unit} (encoder : p.encoderWorks = true)
    (editors : p.editors = [e]) (listeners : e.listeners = [()]) (source : Text) :
    (p.typeInto editor source).1 =
      if source = p.session.source then { p with editors := [e.setText source] }
      else { p with
        editors := [e.setText source]
        session := { p.session with source }
        fragment := p.fragment.write
          (Fragment.encode p.environment.lead { p.session with source })
        phase := .debouncing
        debouncer := p.debouncer.push p.now source } := by
  have found : p.editors[editor]? = some e := by
    rw [editors]
    rfl
  have told : p.editors.set editor (e.setText source) = [e.setText source] := by
    rw [editors]
    rfl
  simp only [typeInto, found, told, listeners, List.foldl_cons, List.foldl_nil, edit]
  split
  · rfl
  · simp only [adopt?, encoder, if_true]

theorem Coherent.type (h : p.Coherent) (source : Text) :
    (p.after (.act (.type editor source))).Coherent := by
  have script := script_after h.script (.act (.type editor source))
  have typed := typeInto_eq h.encoder h.editors rfl source
  change (p.typeInto editor source).1.script = [] at script
  change (p.typeInto editor source).1.Coherent
  rw [typed] at script ⊢
  split
  · next same =>
      refine ⟨h.script, h.encoder, h.mounted, ?_⟩
      rw [same]
      rfl
  · exact ⟨h.script, h.encoder, h.mounted, rfl⟩

/-- A session with the same document is taken over. -/
theorem Coherent.adopted (h : p.Coherent) {session : Session}
    (same : session.source = p.session.source) : (p.adopted session).Coherent := by
  refine ⟨h.script, h.encoder, h.mounted, ?_⟩
  show p.editors = [editorFor session p.output]
  rw [h.editors, editorFor, editorFor, same]

theorem Coherent.setOptions (h : p.Coherent) (minify strategy : Option Json)
    (transpile : Option Bool) : (p.setOptions minify strategy transpile).1.Coherent := by
  rcases p.setOptions_cases minify strategy transpile with same | ⟨session, given, -, -, sets⟩
  · exact same.symm ▸ h
  · rw [sets]
    exact (h.adopted (source_withOptions given)).trigger

theorem Coherent.setView (h : p.Coherent) (given : Json) : (p.setView given).1.Coherent := by
  rcases p.setView_cases given with same | ⟨view, -, -, sets⟩
  · exact same.symm ▸ h
  · rw [sets]
    exact h.adopted rfl

/-- To load a session takes it over and drops the edit that is held back. The
editor is left to be changed. -/
theorem Coherent.load (h : p.Coherent) (fragment : Text) :
    ∃ queue loop jobs written, (p.load fragment).1 = { p with
      session := Fragment.decode p.environment.lead p.environment.newSession fragment
      settled := (Fragment.decode p.environment.lead p.environment.newSession fragment).source
      fragment := written
      debouncer := { p.debouncer with held := none, idle := true, waiting := [] }
      queue
      loop
      jobs } := by
  simp only [Pipeline.load, adopt?, h.encoder, if_true, Pipeline.trigger]
  split
  · exact ⟨_, _, _, _, rfl⟩
  · exact ⟨_, _, _, _, rfl⟩

/-- The document of a restored session is shown in the editor, and nothing is
held back. -/
theorem Coherent.restore (h : p.Coherent) (fragment : Text) (wait : Bool) :
    let q := p.afterEvent (.visit (.call (.restore fragment wait)))
    q.Coherent ∧ q.debouncer.held = none := by
  have fresh : ({ p with replies := [] } : Pipeline).Coherent :=
    ⟨h.script, h.encoder, h.mounted, h.editors⟩
  let session := Fragment.decode p.environment.lead p.environment.newSession fragment
  obtain ⟨queue, loop, jobs, written, loaded⟩ := fresh.load fragment
  let q := ({ p with replies := [] } : Pipeline).load fragment
  have typed := typeInto_eq (p := q.1.note q.2) (e := editorFor p.session p.output)
    (by rw [loaded]; exact h.encoder) (by rw [loaded]; exact h.editors) rfl session.source
  rw [if_pos (by rw [loaded]; rfl)] at typed
  show ({ (((q.1.note q.2).typeInto editor session.source).1.note _) with
    script := [] } : Pipeline).Coherent ∧
      ((q.1.note q.2).typeInto editor session.source).1.debouncer.held = none
  rw [typed, loaded]
  exact ⟨⟨rfl, h.encoder, h.mounted, rfl⟩, rfl⟩

/-- An action that is done on its own, and noted. -/
theorem Coherent.proceed_one {action : Action} (h : (p.act action).1.Coherent)
    (going : action ≠ .stop) : (p.proceed [action]).Coherent := by
  have noted : p.proceed [action] =
      { (p.act action).1.note (p.act action).2 with script := [] } := by
    cases action with
    | stop => exact absurd rfl going
    | _ => rfl
  rw [noted]
  exact ⟨rfl, h.encoder, h.mounted, h.editors⟩

theorem Coherent.visit (h : p.Coherent) (visit : Server.Visit) :
    (p.afterEvent (.visit visit)).Coherent := by
  have fresh : ({ p with replies := [] } : Pipeline).Coherent :=
    ⟨h.script, h.encoder, h.mounted, h.editors⟩
  cases visit with
  | call call =>
      cases call with
      | health | showState | showOutput => exact ⟨rfl, h.encoder, h.mounted, h.editors⟩
      | setSource source wait => exact (fresh.type source).proceed_one (by simp)
      | setOptions minify strategy transpile wait =>
          exact @Coherent.proceed_one _ (.setOptions _ _ transpile)
            (fresh.setOptions _ _ transpile) (by simp)
      | setView view =>
          exact @Coherent.proceed_one _ (.setView _) (fresh.setView _) (by simp)
      | restore fragment wait => exact (h.restore fragment wait).1
      | listen =>
          have subscribed : ({ p with replies := [] } : Pipeline).subscribe.Coherent :=
            ⟨h.script, h.encoder, h.mounted, h.editors⟩
          exact @Coherent.proceed_one _ .subscribe subscribed (by simp)
  | wait =>
      have waiting : ({ p with replies := [] } : Pipeline).wait.Coherent :=
        ⟨h.script, h.encoder, h.mounted, h.editors⟩
      exact @Coherent.proceed_one _ .wait waiting (by simp)
  | leave subscription =>
      have left : (({ p with replies := [] } : Pipeline).unsubscribe subscription).Coherent :=
        ⟨h.script, h.encoder, h.mounted, h.editors⟩
      exact @Coherent.proceed_one _ (.unsubscribe subscription) left (by simp)

theorem Coherent.afterEvent (h : p.Coherent) (event : Event) :
    (p.afterEvent event).Coherent := by
  cases event with
  | visit visit => exact h.visit visit
  | move move background => exact h.after background

theorem Coherent.visited (h : p.Coherent) (events : List Event) : (p.visited events).Coherent := by
  induction events with
  | nil => exact h
  | cons event before ih => exact ih.afterEvent event

/-! ## What is held back -/

theorem held_of_input (h : q.input = p.input) : q.debouncer.held = p.debouncer.held := by
  have debouncer : q.input.debouncer = p.input.debouncer := congrArg _ h
  exact (congrArg Debouncer.held debouncer :)

theorem held_of_outside (h : q.outside = p.outside) : q.debouncer.held = p.debouncer.held :=
  held_of_input (input_eq_of_outside h)

/-- Behind the scenes nothing comes to be held back. -/
theorem held_after (script : p.script = []) (background : move.isBackground = true) :
    (p.after move).debouncer.held = p.debouncer.held ∨ (p.after move).debouncer.held = none := by
  cases move with
  | act action =>
      cases action with
      | answerCompiler call reply =>
          exact .inl (held_of_outside (outside_answerCompiler p call reply))
      | answerEngine call run => exact .inl (held_of_outside (outside_answerEngine p call run))
      | read i => exact .inl rfl
      | _ => cases background
  | halt => cases background
  | job => exact .inl (held_of_input (input_job script))
  | editDue =>
      rcases editDue_cases p with ⟨same, -, -⟩ | ⟨time, source, -, -, -, after⟩
      · exact .inl (congrArg (fun q => q.debouncer.held) same)
      · refine .inr ?_
        rw [after]
        exact held_of_outside (outside_trigger _)
  | answerDue =>
      simp only [Pipeline.after]
      cases due : p.answerDue? with
      | none => exact .inl rfl
      | some q => exact .inl (held_of_outside (outside_answerDue due))
  | clock now => exact .inl rfl

theorem held_setOptions (p : Pipeline) (minify strategy : Option Json) (transpile : Option Bool) :
    (p.setOptions minify strategy transpile).1.debouncer.held = p.debouncer.held := by
  rcases p.setOptions_cases minify strategy transpile with h | ⟨_, -, -, -, h⟩ <;> rw [h]
  exact (held_of_outside (outside_trigger _)).trans rfl

theorem held_setView (p : Pipeline) (given : Json) :
    (p.setView given).1.debouncer.held = p.debouncer.held := by
  rcases p.setView_cases given with h | ⟨_, -, -, h⟩ <;> rw [h]
  rfl

theorem held_type (h : p.Coherent) (source : Text) :
    (p.typeInto editor source).1.debouncer.held = p.debouncer.held ∨
      ∃ time, (p.typeInto editor source).1.debouncer.held = some (time, source) := by
  rw [typeInto_eq h.encoder h.editors rfl source]
  split
  · exact .inl rfl
  · exact .inr ⟨_, rfl⟩

/-- Only a request that sets the document leaves its text held back. -/
theorem Coherent.held_afterEvent (h : p.Coherent) (event : Event) :
    (p.afterEvent event).debouncer.held = p.debouncer.held ∨
      (p.afterEvent event).debouncer.held = none ∨
      ∃ source wait time, event = .visit (.call (.setSource source wait)) ∧
        (p.afterEvent event).debouncer.held = some (time, source) := by
  have fresh : ({ p with replies := [] } : Pipeline).Coherent :=
    ⟨h.script, h.encoder, h.mounted, h.editors⟩
  cases event with
  | move move background =>
      exact (held_after h.script background).imp_right .inl
  | visit visit =>
      cases visit with
      | call call =>
          cases call with
          | health | showState | showOutput | listen => exact .inl rfl
          | setSource source wait =>
              rcases held_type fresh source with same | ⟨time, held⟩
              · exact .inl same
              · exact .inr (.inr ⟨source, wait, time, rfl, held⟩)
          | setOptions minify strategy transpile wait =>
              exact .inl (held_setOptions _ _ _ transpile)
          | setView view => exact .inl (held_setView _ _)
          | restore fragment wait => exact .inr (.inl (h.restore fragment wait).2)
      | wait => exact .inl rfl
      | leave subscription => exact .inl rfl

/-- The edit that is given out was held back, and it is compiled with the session
as it is then. -/
theorem given_of_editDue? (due : p.editDue? = some q) :
    ∃ time source, p.debouncer.held = some (time, source) ∧ q.settled = source ∧
      q.queue = p.queue ++ [⟨p.session, source⟩] := by
  obtain ⟨⟨source, debouncer⟩, taken, rfl⟩ := Option.map_eq_some_iff.mp due
  unfold Debouncer.take? at taken
  cases held : p.debouncer.held with
  | none =>
      rw [held] at taken
      cases taken
  | some edit =>
      obtain ⟨time, value⟩ := edit
      rw [held] at taken
      simp only [] at taken
      split at taken
      · cases taken
        have settled := congrArg Pipeline.settled (outside_trigger { p with
          debouncer := { p.debouncer with held := none }, settled := source })
        exact ⟨time, source, rfl, settled, queue_trigger _⟩
      · cases taken

/-- What is held back after some events was set by one of them, if nothing was
held back before. -/
theorem Coherent.set_of_held (h : p.Coherent) (nothing : p.debouncer.held = none)
    (events : List Event) {time : Nat} {source : Text}
    (held : (p.visited events).debouncer.held = some (time, source)) :
    ∃ wait, .visit (.call (.setSource source wait)) ∈ events := by
  induction events with
  | nil =>
      rw [Pipeline.visited, nothing] at held
      cases held
  | cons event before ih =>
      rw [Pipeline.visited] at held
      rcases (h.visited before).held_afterEvent event with same | none | ⟨t, wait, time', set, now⟩
      · obtain ⟨wait, mem⟩ := ih (same ▸ held)
        exact ⟨wait, List.mem_cons_of_mem _ mem⟩
      · rw [none] at held
        cases held
      · rw [now] at held
        cases held
        exact ⟨wait, set ▸ List.mem_cons_self⟩

/-! ## A server's life -/

/-- A pipeline as it is taken into service: an editor with the document is mounted,
and the control loop starts. -/
def opened (p : Pipeline) : Pipeline :=
  ({ p.mount { text := p.session.source } with replies := [] } : Pipeline).proceed [.start]

theorem coherent_opened {environment : Environment} {window : Int} {fragment : Text}
    (made : new environment window fragment = .ok p) (log : List LogRecord) :
    ({ p with log } : Pipeline).opened.Coherent := by
  obtain ⟨debouncer, -, rfl⟩ := new_eq_ok made
  exact ⟨rfl, rfl, rfl, rfl⟩

end Pipeline

namespace Server

/-- What a server does before the first request. -/
theorem reaches_start (p : Pipeline) : ({ pipeline := p.opened } : Server).Reaches (start p) := by
  obtain ⟨moves, own, settled⟩ := Pipeline.settleWithin_eq_follow Clockwork.patience p.opened
  obtain ⟨events, same⟩ := Pipeline.follow_eq_visited p.opened own
  have run : ({ pipeline := p.opened } : Server).Reaches
      { pipeline := ((p.mount { text := p.session.source }).run [.start]).1 } :=
    ⟨events, settled.trans same⟩
  exact run.trans (reaches_settle _)

variable {environment : Environment} {window : Int} {fragment : Text} {p : Pipeline}

/-- After any events, in any order, the editor shows the document of the session,
and the answer to the question for the output has a marker for each of its
diagnostics. When a session is restored, nothing is held back afterwards, and an
edit that is given out later was set by a request since then. -/
theorem stays_coherent (made : Pipeline.new environment window fragment = .ok p)
    (log : List LogRecord) (events : List Event) :
    let q := ({ p with log } : Pipeline).opened.visited events
    (q.editors[editor]?.bind Editor.text? = some q.session.source) ∧
    (∀ streams, (({ pipeline := q, streams } : Server).perform .showOutput).2 =
      some (.ofJson (outputPayload q (q.output.diagnostics.map Marker.ofDiagnostic)))) ∧
    (∀ fragment wait, (q.afterEvent (.visit (.call (.restore fragment wait)))).debouncer.isPending =
      false) ∧
    ∀ since fragment wait before,
      events = since ++ .visit (.call (.restore fragment wait)) :: before →
      ∀ r, q.editDue? = some r → ∃ source wait,
        .visit (.call (.setSource source wait)) ∈ since ∧ r.settled = source ∧
          r.queue = q.queue ++ [⟨q.session, source⟩] := by
  intro q
  have coherent (events : List Event) :
      (({ p with log } : Pipeline).opened.visited events).Coherent :=
    (Pipeline.coherent_opened made log).visited events
  refine ⟨?_, fun streams => ?_, fun fragment wait => ?_, ?_⟩
  · rw [(coherent events).editors]
    rfl
  · have markers : ({ pipeline := q, streams } : Server).markers =
        q.output.diagnostics.map Marker.ofDiagnostic := by
      rw [Server.markers, (coherent events).editors]
      rfl
    rw [perform, markers]
  · rw [Debouncer.isPending, ((coherent events).restore fragment wait).2]
    rfl
  · rintro since fragment wait before rfl r due
    obtain ⟨restored, nothing⟩ := (coherent before).restore fragment wait
    obtain ⟨time, source, held, settled, queue⟩ := Pipeline.given_of_editDue? due
    change (Pipeline.visited _ (since ++ _ :: before)).debouncer.held = _ at held
    rw [Pipeline.visited_append] at held
    obtain ⟨wait, mem⟩ := restored.set_of_held nothing since held
    exact ⟨source, wait, mem, settled, queue⟩

/-- A document is typed, then a session is restored from a fragment that cannot be
read, and then another document is typed, which alone is given out. -/
theorem stays_coherent_restored :
    let environment : Environment :=
      { rootDir := [], newSession := { source := text "a" }, compiler := none }
    let typed (source : String) : Event := .visit (.call (.setSource (text source) false))
    let since : List Event := [.move (.clock 7) rfl, typed "c"]
    ∃ p, Pipeline.new environment 5 [] = .ok p ∧
      let q := ({ p with log := [] } : Pipeline).opened.visited
        (since ++ .visit (.call (.restore [] true)) :: [typed "b"])
      q.editors[editor]?.bind Editor.text? = some (text "c") ∧ q.session.source = text "c" ∧
        ∃ r, q.editDue? = some r ∧ ∃ source wait,
          .visit (.call (.setSource source wait)) ∈ since ∧ r.settled = source := by
  intro environment typed since
  refine ⟨_, rfl, ?_⟩
  obtain ⟨shown, -, -, given⟩ := @stays_coherent environment 5 [] _ rfl []
    (since ++ .visit (.call (.restore [] true)) :: [typed "b"])
  refine ⟨shown, rfl, _, rfl, ?_⟩
  obtain ⟨source, wait, mem, settled, -⟩ := given since [] true [typed "b"] rfl _ rfl
  exact ⟨source, wait, mem, settled⟩

end Server

end Playground
