import Playground.Pipeline.Configured
import Playground.Server.Payload
import Playground.Server.Request
/-!
# The session of a server

A server hosts one session: a pipeline, an editor in memory through which the
document is changed, and the streams on which publications are announced. A
change is answered with the session as it is then; whoever asks to wait gets
the answer when the pipeline is idle.
-/

namespace Playground.Server

/-- A stream of events. -/
structure EventStream where
  /-- The subscription that feeds it. -/
  subscription : Nat
  /-- What was sent so far. -/
  sent : Text
  /-- When to say that it is alive. -/
  keepalive : Nat
  isOpen : Bool := true

/-- An answer. -/
structure Response where
  status : Status
  body : Option Json := none

/-- An answer with a body. A body with surrogates in it cannot be encoded. -/
def Response.ofJson (body : Json) : Response :=
  if (Json.render .compact body).any CodePoint.isSurrogate then { status := .failed }
  else { status := .ok, body := some body }

end Server

/-- A server. -/
structure Server where
  pipeline : Pipeline
  streams : List Server.EventStream := []

namespace Server

/-- The name under which a server presents itself. -/
def title : Text := text "Optiplay"

/-- The number of the server's own editor. -/
def editor : Nat := 0

/-! ## Time -/

/-- Sends something on a stream. -/
def send (s : Server) (i : Nat) (t : Text) : Server :=
  { s with
    streams := s.streams.modify i fun e =>
      { e with sent := e.sent ++ t, keepalive := s.pipeline.now + keepaliveInterval } }

/-- The text that is to be sent on a stream now, if there is any. -/
def pendingText? (s : Server) (e : EventStream) : Option Text :=
  let unread := (s.pipeline.subscriptions[e.subscription]?.map Subscription.unread).getD []
  if !e.isOpen then none
  else if !unread.isEmpty then some (unread.flatMap (eventText "published"))
  else if e.keepalive ≤ s.pipeline.now then some keepaliveText
  else none

/-- Sends what is to be sent on the first stream that has something. -/
def deliver? (s : Server) : Option Server :=
  s.streams.zipIdx.findSome? fun (e, i) =>
    (s.pendingText? e).map fun t =>
      { s with pipeline := (s.pipeline.read e.subscription).1 }.send i t

/-- The next step: one of the pipeline, or else one of a stream. -/
def step? (s : Server) : Option Server :=
  match s.pipeline.step? with
  | some pipeline => some { s with pipeline }
  | none => s.deliver?

/-- When the next timer is due. -/
def due? (s : Server) : Option Nat :=
  let keepalives := (s.streams.filter EventStream.isOpen).map EventStream.keepalive
  (s.pipeline.due?.toList ++ keepalives).min?

instance : Clockwork Server where
  step? := step?
  now s := s.pipeline.now
  due? := due?
  setNow now s := { s with pipeline := { s.pipeline with now } }

/-! ## Requests -/

/-- Does actions immediately after each other. -/
def act (s : Server) (actions : List Action) : Server :=
  Clockwork.settle { s with pipeline := (s.pipeline.run actions).1 }

/-- Waits until the pipeline is idle. Whether it ever becomes so is told as well. -/
def awaitIdle (s : Server) : Server × Bool :=
  let waiter := s.pipeline.waiters.length
  let isDone (s : Server) : Bool := s.pipeline.waiters[waiter]? = some .done
  let s := Clockwork.await isDone (s.act [.wait])
  (s, isDone s)

/-- Answers with the session, if asked so only when the pipeline is idle; none if that never happens. -/
def answerSession (s : Server) (wait : Bool) : Server × Option Response :=
  let (s, isDone) := if wait then s.awaitIdle else (s, true)
  (s, if isDone then some (.ofJson (sessionPayload s.pipeline)) else none)

/-- The marks that the server's editor shows. -/
def markers (s : Server) : List Marker :=
  (s.pipeline.editors[editor]?.map Editor.markers).getD []

/-- Opens a stream, on which the current generation is told first. -/
def openStream (s : Server) : Server :=
  let subscription := s.pipeline.subscriptions.length
  let s := s.act [.subscribe]
  let stream : EventStream := {
    subscription
    sent := eventText "current" s.pipeline.output.generation
    keepalive := s.pipeline.now + keepaliveInterval }
  Clockwork.settle { s with streams := s.streams ++ [stream] }

/-- Closes a stream. -/
def closeStream (s : Server) (i : Nat) : Server :=
  match s.streams[i]? with
  | none => s
  | some e =>
    { s with streams := s.streams.set i { e with isOpen := false } }.act [.unsubscribe e.subscription]

/-- How many streams are subscribed. -/
def subscribers (s : Server) : Nat :=
  (s.pipeline.subscriptions.filter Subscription.isActive).length

/-- Does what a call asks for. -/
def perform (s : Server) : Call → Server × Option Response
  | .health => (s, some (.ofJson (object [("status", .str (text "ok"))])))
  | .showState => s.answerSession false
  | .showOutput => (s, some (.ofJson (outputPayload s.pipeline s.markers)))
  | .setSource source wait => (s.act [.type editor source]).answerSession wait
  | .setOptions minify strategy transpile wait =>
    let name {α : Type} (f : α → Text) (a : Option α) : Option Json := a.map fun a => .str (f a)
    (s.act [.setOptions (name MinifyMode.name minify) (name EntryStrategy.name strategy)
      transpile]).answerSession wait
  | .setView view => (s.act [.setView (.str view.name)]).answerSession false
  | .restore fragment wait =>
    let e := s.pipeline.environment
    let session := Fragment.decode e.lead e.newSession fragment
    (s.act [.load fragment, .type editor session.source]).answerSession wait
  | .listen => (s.openStream, none)

/-- Answers a request; none if the answer never comes. -/
def request (s : Server) (r : Request) : Server × Option Response :=
  match r.call with
  | .ok call => s.perform call
  | .error status => (s, some { status })

/-! ## Beginning and end -/

/-- A server around a pipeline. The editor is mounted first. -/
def start (pipeline : Pipeline) : Server :=
  { pipeline := pipeline.mount { text := pipeline.session.source } : Server }.act [.start]

/-- Halts a server. -/
def stop (s : Server) : Server :=
  s.act [.stop]

/-- The pipeline that settings describe: with the configured compiler if it can be run, and else without
one, which is logged. -/
def configured (settings : Settings) (outcome : ProcessOutcome) :
    Except ConfigurationFault Pipeline := do
  let command := settings.compilerCommand
  if ProcessCall.available command outcome then
    Pipeline.configured settings (some (processCompiler command outcome)) []
  else
    let p ← Pipeline.configured settings none []
    return p.report (.warning (text "Compiler command " ++ (Text.join (text " ") command).quoted ++
      text " not available; the pipeline will stay idle"))

end Server

end Playground
