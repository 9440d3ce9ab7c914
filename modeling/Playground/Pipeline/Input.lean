import Playground.Pipeline.Basic
/-!
# Input

What users do to the session. Every change of the session is written to the
fragment at once, whether or not anything is compiled; a session that cannot be
encoded is not taken over. An edit waits in the debouncer, an option takes
effect at once together with the settled text, and a view only selects what is
displayed.
-/

namespace Playground.Pipeline

/-- Takes over a session and writes it to the fragment, unless the encoder is broken. -/
def adopt? (p : Pipeline) (session : Session) : Option Pipeline :=
  if p.encoderWorks then
    some { p with
      session
      fragment := p.fragment.write (Fragment.encode p.environment.lead session) }
  else none

/-- Changes the document, after which the edit is held back. -/
def edit (p : Pipeline) (source : Text) : Pipeline × Reply :=
  if source = p.session.source then (p, .done)
  else
    match p.adopt? { p.session with source } with
    | none => (p, .encoderBroken)
    | some p =>
      ({ p with phase := .debouncing, debouncer := p.debouncer.push p.now source }, .done)

/-- The session after a change of the options that are given. -/
def withOptions (session : Session) (minify strategy : Option Json) (transpile : Option Bool) :
    Except UnknownChoice Session := do
  let mode ← match minify with
    | some given => MinifyMode.ofJson given
    | none => pure session.minify
  let strategy ← match strategy with
    | some given => EntryStrategy.ofJson given
    | none => pure session.strategy
  return { session with minify := mode, strategy, transpile := transpile.getD session.transpile }

/-- Changes options. -/
def setOptions (p : Pipeline) (minify strategy : Option Json) (transpile : Option Bool) :
    Pipeline × Reply :=
  match withOptions p.session minify strategy transpile with
  | .error e => (p, .unknown e)
  | .ok session =>
    if session = p.session then (p, .done)
    else
      match p.adopt? session with
      | none => (p, .encoderBroken)
      | some p => (p.trigger, .done)

/-- Selects a view. -/
def setView (p : Pipeline) (given : Json) : Pipeline × Reply :=
  match View.ofJson given with
  | .error e => (p, .unknown e)
  | .ok view =>
    if view = p.session.view then (p, .done)
    else
      match p.adopt? { p.session with view } with
      | none => (p, .encoderBroken)
      | some p => (p, .done)

/-- Takes over the session of a fragment. An edit that is held back is dropped. -/
def load (p : Pipeline) (fragment : Text) : Pipeline × Reply :=
  let session := Fragment.decode p.environment.lead p.environment.newSession fragment
  match p.adopt? session with
  | none => (p, .encoderBroken)
  | some p => (({ p with settled := session.source }.dropEdit).trigger, .session session)

/-- Mounts an editor. From now on it shows the markers, and its changes are edits. -/
def mount (p : Pipeline) (editor : Editor Unit) : Pipeline :=
  { p with
    editors := p.editors ++ [editor.listen ()]
    mounted := some p.editors.length }

/-- Sets the text of an editor, whereupon those who listen take it as an edit. -/
def typeInto (p : Pipeline) (i : Nat) (source : Text) : Pipeline × Reply :=
  match p.editors[i]? with
  | none => (p, .done)
  | some editor =>
    let told := { p with editors := p.editors.set i (editor.setText source) }
    editor.listeners.foldl (fun (p, reply) _ =>
      match reply with
      | .done => p.edit source
      | _ => (p, reply)) (told, .done)

/-! ## Subscriptions -/

/-- Adds a subscription. -/
def subscribe (p : Pipeline) : Pipeline :=
  { p with subscriptions := p.subscriptions ++ [{}] }

/-- Ends a subscription. What it has not read yet can still be read. -/
def unsubscribe (p : Pipeline) (i : Nat) : Pipeline :=
  { p with subscriptions := p.subscriptions.modify i ({ · with isActive := false }) }

/-- Takes what a subscription has not read yet. -/
def read (p : Pipeline) (i : Nat) : Pipeline × List Nat :=
  ({ p with subscriptions := p.subscriptions.modify i ({ · with unread := [] }) },
    (p.subscriptions[i]?.map Subscription.unread).getD [])

/-- Tells those who subscribe of a publication. Who has too much to read already is not told. -/
def notify (p : Pipeline) (generation : Nat) : Pipeline :=
  { p with
    subscriptions := p.subscriptions.map fun s =>
      if s.isActive && s.unread.length < Subscription.capacity then
        { s with unread := s.unread ++ [generation] }
      else s }

end Playground.Pipeline
