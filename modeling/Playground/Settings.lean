import Playground.Session
import Playground.Text.Integer
import Playground.Text.ShellWords
import Playground.Text.Upper
/-!
# Settings

The settings come from the environment, each with a default for a variable that
is not set. They are read in a fixed order, so of several bad values the first
one is reported.
-/

namespace Playground

/-- The settings of an installation. -/
structure Settings where
  /-- The words of the compiler's command; none when no compiler is configured. -/
  compilerCommand : List Text := []
  /-- The directory that the compiler is told. -/
  rootDir : Text := text "/internal/project"
  /-- How long a document must stay as it is before it is compiled, in milliseconds. -/
  debounceMs : Int := 200
  /-- Whether a new session transpiles. -/
  transpile : Bool := false
  /-- The view of a new session, as configured. -/
  view : Text := text "modules"
  host : Text := text "0.0.0.0"
  port : Int := 8000
  logLevel : Text := text "INFO"

namespace Settings

/-- The path under which the compiler sees the document. -/
def inputPath : Text := text "input.tsx"

/-- The module with which bundling begins. -/
def entryId : Text := text "input.js"

/-- What a share link's fragment begins with. -/
def fragmentLead : Text := text "#"

/-- Why settings cannot be loaded. -/
inductive Fault where
  | badCommand (fault : ShellWords.Fault)
  | badInteger (given : Text) (fault : Integer.Fault)

/-- What a fault reads like. At most 200 code points of a bad integer are shown. -/
def Fault.message : Fault → Text
  | .badCommand fault => fault.message
  | .badInteger given .malformed =>
    text "invalid literal for int() with base 10: " ++ given.quoted.take 200
  | .badInteger _ (.tooLong digits) =>
    text "Exceeds the limit (" ++ Text.ofNat Integer.maxDigits ++
      text " digits) for integer string conversion: value has " ++ Text.ofNat digits ++
      text " digits; use sys.set_int_max_str_digits() to increase the limit"

/-- Whether a value switches a setting on. -/
def isOn (value : Text) : Bool :=
  [text "1", text "true", text "yes", text "on"].contains (value.trim.map CodePoint.lowerAscii)

/-- An integer among the variables. -/
def readInteger (given : Text) : Except Fault Int :=
  match Integer.read given with
  | .ok n => .ok n
  | .error fault => .error (.badInteger given fault)

/-- The settings under these environment variables. -/
def load (environment : List (Text × Text)) : Except Fault Settings := do
  let get (name default : String) : Text := (environment.lookup (text name)).getD (text default)
  let compilerCommand ←
    match ShellWords.split (get "COMPILER_COMMAND" "") with
    | .ok words => .ok words
    | .error fault => .error (Fault.badCommand fault)
  let debounceMs ← readInteger (get "DEBOUNCE_MS" "200")
  let port ← readInteger (get "PORT" "8000")
  return {
    compilerCommand, debounceMs, port
    rootDir := get "COMPILER_ROOT_DIR" "/internal/project"
    transpile := isOn (get "DEFAULT_TRANSPILE" "false")
    view := get "DEFAULT_VIEW" "modules"
    host := get "HOST" "0.0.0.0"
    logLevel := Text.upper (get "LOG_LEVEL" "INFO") }

/-- The session of a user who brings none. -/
def newSession (settings : Settings) : Except UnknownChoice Session :=
  match View.ofJson (.str settings.view) with
  | .ok view => .ok { source := Session.welcome, transpile := settings.transpile, view }
  | .error e => .error e

end Settings

end Playground
