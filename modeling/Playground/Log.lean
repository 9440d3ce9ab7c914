import Playground.Bundle.Failure
import Playground.Compile.Failure
/-!
# The log

What goes wrong without stopping the session is logged, together with its
cause.
-/

namespace Playground

/-- Anything that can go wrong in a session. -/
inductive Failure where
  | compile (failure : CompileFailure)
  | bundle (failure : BundleFailure)
  /-- A bundler's output is malformed. -/
  | badOutput
  /-- A collaborator breaks with a message of its own. -/
  | broke (message : Text)
deriving DecidableEq, Repr

/-- What a failure reads like; a malformed output has no short text. -/
def Failure.message? : Failure → Option Text
  | compile failure => some failure.message
  | bundle failure => some failure.message
  | badOutput => none
  | broke message => some message

/-- How serious a record is. -/
inductive Level where
  | warning
  | error
deriving DecidableEq, Repr

/-- A record of the log. -/
structure LogRecord where
  level : Level
  message : Text
  cause : Option Failure := none
deriving DecidableEq, Repr

namespace LogRecord

/-- A warning. -/
def warning (message : Text) : LogRecord := ⟨.warning, message, none⟩

/-- An error and its cause. -/
def failure (message : Text) (cause : Failure) : LogRecord := ⟨.error, message, some cause⟩

end LogRecord

end Playground
