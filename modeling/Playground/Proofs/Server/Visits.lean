import Playground.Proofs.Clockwork
import Playground.Proofs.Pipeline.Course
import Playground.Server.Session

/-!
# Several requests at a time

A request does something to the pipeline at once, and may then wait. Between the
two anything can happen: other requests come in, jobs are done, timers fire, and
the compiler and the engine answer when they like. So the pipeline of a server is
at the mercy of visits, each of which is made without a break, and of the moves
that nobody asked for.

A server that takes one request after the other, and lets everything happen that
follows from one before it takes the next, is one special case. All that a server
does is shown to be a sequence of such events, so what holds after every sequence
holds for the server too.
-/

namespace Playground

/-- Whether a move is made behind the scenes: it comes by itself, someone who was
called answers, or someone takes what was sent. -/
def Move.isBackground : Move → Bool
  | .act (.answerCompiler _ _) | .act (.answerEngine _ _) | .act (.read _) => true
  | .act _ | .halt => false
  | .job | .editDue | .answerDue | .clock _ => true

theorem Move.isBackground_of_isOwn {move : Move} (h : move.isOwn = true) :
    move.isBackground = true := by
  cases move with
  | act | halt => cases h
  | job | editDue | answerDue | clock => rfl

namespace Server

/-- What those who use a server do to its pipeline. -/
inductive Visit where
  /-- A request takes effect. -/
  | call (call : Call)
  /-- A request that is to be answered later begins to wait. -/
  | wait
  /-- A stream is closed. -/
  | leave (subscription : Nat)

/-- The actions of a visit. To restore a session is to load it and then to show
its document in the editor. -/
def Visit.actions (p : Pipeline) : Visit → List Action
  | .call .health | .call .showState | .call .showOutput => []
  | .call (.setSource source _) => [.type editor source]
  | .call (.setOptions minify strategy transpile _) =>
    [.setOptions (minify.map fun mode => .str mode.name)
      (strategy.map fun strategy => .str strategy.name) transpile]
  | .call (.setView view) => [.setView (.str view.name)]
  | .call (.restore fragment _) =>
    [.load fragment, .type editor
      (Fragment.decode p.environment.lead p.environment.newSession fragment).source]
  | .call .listen => [.subscribe]
  | .wait => [.wait]
  | .leave subscription => [.unsubscribe subscription]

/-- What can happen to the pipeline of a server next. -/
inductive Event where
  | visit (visit : Visit)
  | move (move : Move) (background : move.isBackground = true)

end Server

namespace Pipeline

/-- The pipeline after an event. -/
def afterEvent (p : Pipeline) : Server.Event → Pipeline
  | .visit visit => { p with replies := [] }.proceed (visit.actions p)
  | .move move _ => p.after move

/-- The pipeline after some events, the latest of which comes first. -/
def visited (p : Pipeline) : List Server.Event → Pipeline
  | [] => p
  | event :: before => (p.visited before).afterEvent event

theorem visited_append (p : Pipeline) (later before : List Server.Event) :
    p.visited (later ++ before) = (p.visited before).visited later := by
  induction later with
  | nil => rfl
  | cons event later ih => rw [List.cons_append, visited, ih, visited]

/-- What comes by itself is a sequence of events. -/
theorem follow_eq_visited (p : Pipeline) {moves : List Move}
    (own : ∀ move ∈ moves, move.isOwn = true) :
    ∃ events, p.follow moves = p.visited events := by
  induction moves with
  | nil => exact ⟨[], rfl⟩
  | cons move moves ih =>
      obtain ⟨h, rest⟩ := List.forall_mem_cons.mp own
      obtain ⟨events, same⟩ := ih rest
      exact ⟨.move move (Move.isBackground_of_isOwn h) :: events, by
        rw [follow, same, visited, afterEvent]⟩

end Pipeline

/-! ## What a server does -/

namespace Server

variable {s t u : Server}

/-- A server comes to another one by events. -/
def Reaches (s t : Server) : Prop :=
  ∃ events, t.pipeline = s.pipeline.visited events

theorem Reaches.refl (s : Server) : s.Reaches s := ⟨[], rfl⟩

theorem Reaches.trans (h : s.Reaches t) (h' : t.Reaches u) : s.Reaches u := by
  obtain ⟨before, hs⟩ := h
  obtain ⟨later, ht⟩ := h'
  exact ⟨later ++ before, by rw [ht, hs, Pipeline.visited_append]⟩

/-- The streams of a server are not a part of its pipeline. -/
theorem reaches_of_pipeline_eq (h : t.pipeline = s.pipeline) : s.Reaches t := ⟨[], h⟩

theorem reaches_event (event : Event) (h : t.pipeline = s.pipeline.afterEvent event) :
    s.Reaches t := ⟨[event], h⟩

theorem reaches_clock (now : Nat) (s : Server) : s.Reaches (Clockwork.setNow now s) :=
  reaches_event (.move (.clock now) rfl) rfl

theorem reaches_step (h : Clockwork.step? s = some t) : s.Reaches t := by
  change s.step? = some t at h
  unfold step? at h
  split at h
  · next p step =>
      cases h
      obtain ⟨move, own, rfl⟩ := Pipeline.step?_eq_after step
      exact reaches_event (.move move (Move.isBackground_of_isOwn own)) rfl
  · obtain ⟨⟨e, i⟩, -, sent⟩ := List.exists_of_findSome?_eq_some h
    obtain ⟨_, -, rfl⟩ := Option.map_eq_some_iff.mp sent
    exact reaches_event (.move (.act (.read e.subscription)) rfl) rfl

theorem Reaches.step (s : Server) (t u : Server) (h : Clockwork.step? t = some u)
    (before : s.Reaches t) : s.Reaches u :=
  before.trans (reaches_step h)

theorem Reaches.clock (s : Server) (now : Nat) (t : Server) (before : s.Reaches t) :
    s.Reaches (Clockwork.setNow now t) :=
  before.trans (reaches_clock now t)

theorem reaches_settle (s : Server) : s.Reaches (Clockwork.settle s) :=
  Clockwork.settle_rec (Reaches.step s) (.refl s)

/-- However much time passes, what happens meanwhile are events. -/
theorem reaches_pass (ms : Nat) (s : Server) : s.Reaches (Clockwork.pass ms s) :=
  Clockwork.pass_rec (Reaches.step s) (Reaches.clock s) (.refl s) ms

/-- To act is to visit the pipeline and to let happen what follows from it. -/
theorem reaches_act {actions : List Action} (visit : Visit)
    (h : visit.actions s.pipeline = actions) : s.Reaches (s.act actions) := by
  obtain ⟨moves, own, settled⟩ := Pipeline.settleWithin_eq_follow Clockwork.patience
    ({ s.pipeline with replies := [] }.proceed actions)
  obtain ⟨events, same⟩ := Pipeline.follow_eq_visited
    ({ s.pipeline with replies := [] }.proceed actions) own
  have run : s.Reaches { s with pipeline := (s.pipeline.run actions).1 } := by
    refine ⟨events ++ [.visit visit], (settled.trans same).trans ?_⟩
    rw [Pipeline.visited_append]
    simp only [Pipeline.visited, Pipeline.afterEvent, h]
  exact run.trans (reaches_settle _)

theorem reaches_answerSession (s : Server) (wait : Bool) :
    s.Reaches (s.answerSession wait).1 := by
  unfold answerSession
  cases wait with
  | false => exact .refl s
  | true =>
      refine (reaches_act .wait rfl).trans ?_
      exact Clockwork.await_rec (Reaches.step _) (Reaches.clock _) (.refl _) _

/-- All that a call comes to are events. -/
theorem reaches_perform (s : Server) (call : Call) : s.Reaches (s.perform call).1 := by
  cases call with
  | health | showState | showOutput => exact .refl s
  | setSource source wait =>
      exact (reaches_act (.call (.setSource source wait)) rfl).trans (reaches_answerSession _ wait)
  | setOptions minify strategy transpile wait =>
      exact (reaches_act (.call (.setOptions minify strategy transpile wait)) rfl).trans
        (reaches_answerSession _ wait)
  | setView view =>
      exact (reaches_act (.call (.setView view)) rfl).trans (reaches_answerSession _ false)
  | restore fragment wait =>
      exact (reaches_act (.call (.restore fragment wait)) rfl).trans
        (reaches_answerSession _ wait)
  | listen =>
      refine (reaches_act (.call .listen) rfl).trans ?_
      exact (reaches_of_pipeline_eq rfl).trans (reaches_settle _)

theorem reaches_request (s : Server) (r : Request) : s.Reaches (s.request r).1 := by
  unfold request
  cases r.call with
  | ok call => exact reaches_perform s call
  | error status => exact .refl s

theorem reaches_closeStream (s : Server) (i : Nat) : s.Reaches (s.closeStream i) := by
  unfold closeStream
  split
  · exact .refl s
  · next e _ =>
      refine (reaches_of_pipeline_eq ?_).trans (reaches_act (.leave e.subscription) rfl)
      rfl

end Server

end Playground
