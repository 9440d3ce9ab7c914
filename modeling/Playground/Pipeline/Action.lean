import Playground.Bundle.Output
import Playground.Editor
import Playground.Session
/-!
# What can be done to a pipeline

The actions of those who use a pipeline, those of its collaborators that answer
on request, and what an action comes to.
-/

namespace Playground

/-- An action. -/
inductive Action where
  /-- Starts the control loop, and with it the first run. -/
  | start
  /-- Halts the pipeline. -/
  | stop
  /-- Changes the document. -/
  | edit (source : Text)
  /-- Changes the options that are given, by name. -/
  | setOptions (minify strategy : Option Json) (transpile : Option Bool)
  /-- Selects a view, by name. -/
  | setView (view : Json)
  /-- Takes over the session of a fragment. -/
  | load (fragment : Text)
  /-- Takes over the session of the current fragment. -/
  | reload
  /-- Mounts a further editor. -/
  | attach (kind : EditorKind)
  /-- Sets the text of an editor. -/
  | type (editor : Nat) (source : Text)
  /-- Answers a call to the compiler. -/
  | answerCompiler (call : Nat) (reply : CompilerReply)
  /-- Answers a call to the engine. -/
  | answerEngine (call : Nat) (run : EngineRun)
  /-- Lets someone wait until the pipeline is idle. -/
  | wait
  /-- Lets someone be told of publications. -/
  | subscribe
  | unsubscribe (subscription : Nat)
  /-- Takes what a subscription has not read yet. -/
  | read (subscription : Nat)
  /-- Breaks the encoder of fragments, or mends it. -/
  | setEncoder (works : Bool)

/-- What an action comes to. -/
inductive Reply where
  | done
  | session (session : Session)
  | unread (generations : List Nat)
  /-- No such call waits for an answer. -/
  | noSuchCall
  | unknown (choice : UnknownChoice)
  | encoderBroken

end Playground
