import Playground.Compile.Process
import Playground.Pipeline.Actions
/-!
# Pipelines by configuration

A pipeline that the settings describe, with a compiler that runs a command.
-/

namespace Playground

/-- The compiler that runs a command whose process always has the same outcome. A process that does
not end holds its call back. -/
def processCompiler (command : List Text) (outcome : ProcessOutcome) (options : CompileOptions) :
    Answer CompilerReply :=
  match (ProcessCall.run command options outcome).reply with
  | some reply => .atOnce reply
  | none => .onRequest

/-- Why settings describe no pipeline. -/
inductive ConfigurationFault where
  | badView (choice : UnknownChoice)
  | badWindow (window : NegativeWindow)

/-- What a fault reads like. -/
def ConfigurationFault.message : ConfigurationFault → Text
  | badView choice => choice.message
  | badWindow window => window.message

/-- The pipeline that settings describe, with a compiler if there is one. -/
def Pipeline.configured (settings : Settings)
    (compiler : Option (CompileOptions → Answer CompilerReply)) (fragment : Text) :
    Except ConfigurationFault Pipeline :=
  match settings.newSession with
  | .error e => .error (.badView e)
  | .ok newSession =>
    let environment : Environment := { rootDir := settings.rootDir, newSession, compiler }
    (Pipeline.new environment settings.debounceMs fragment).mapError .badWindow

end Playground
