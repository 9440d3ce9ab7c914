import Playground.CommandLine.Arguments
import Playground.Session
/-!
# Commands

There are three commands: `encode` writes the fragment for a document, `decode`
shows the session of a fragment, and `compile` compiles a document once. The
first and the last take the options of the session.
-/

namespace Playground.CommandLine

/-- A document and the options of its session. -/
structure Document where
  path : Text
  minify : MinifyMode := .none
  strategy : EntryStrategy := .smart
  transpile : Bool := false
  view : View := .modules
deriving DecidableEq, Repr

/-- A command. -/
inductive Command where
  | encode (document : Document)
  | decode (fragment : Text)
  /-- Compiles with the command that is given as one line, or with the configured one. -/
  | compile (document : Document) (compiler : Option Text)
deriving DecidableEq, Repr

namespace Command

/-- The options in front of the command. -/
def leadingSwitches : List Switch :=
  [.help, { key := "verbose", names := ["-v", "--verbose"] }]

/-- The options of a document. -/
def documentSwitches : List Switch := [
  .help,
  { key := "minify", names := ["--minify"], takesValue := true
    choices := some (MinifyMode.all.map MinifyMode.name) },
  { key := "strategy", names := ["--entry-strategy"], takesValue := true
    choices := some (EntryStrategy.all.map EntryStrategy.name) },
  { key := "transpile", names := ["--transpile"] },
  { key := "view", names := ["--view"], takesValue := true
    choices := some (View.all.map View.name) }]

/-- The options of the command `compile`. -/
def compileSwitches : List Switch :=
  documentSwitches ++ [{ key := "compiler", names := ["--compiler"], takesValue := true }]

/-- The member of `all` that an option names, or `default`. -/
def choiceOf {α : Type} (found : Found) (key : String) (name : α → Text) (all : List α)
    (default : α) : α :=
  match found.value? key with
  | some word => (all.find? fun a => name a = word).getD default
  | none => default

/-- The document that the arguments name. -/
def documentOf (found : Found) : Document where
  path := found.operand.getD []
  minify := choiceOf found "minify" MinifyMode.name MinifyMode.all .none
  strategy := choiceOf found "strategy" EntryStrategy.name EntryStrategy.all .smart
  transpile := found.has "transpile"
  view := choiceOf found "view" View.name View.all .modules

/-- A command and its arguments, and whether something is left over. -/
def parseRest (word : Text) (arguments : List Text) : Except Stop (Command × Bool) :=
  if word = text "encode" then do
    let found ← parseOne documentSwitches arguments
    return (.encode (documentOf found), found.leftOver)
  else if word = text "decode" then do
    let found ← parseOne [.help] arguments
    return (.decode (found.operand.getD []), found.leftOver)
  else if word = text "compile" then do
    let found ← parseOne compileSwitches arguments
    return (.compile (documentOf found) (found.value? "compiler"), found.leftOver)
  else .error .refused

/-- The command that the arguments give. -/
def parse (arguments : List Text) : Except Stop Command := do
  let (leading, word, rest) ← parseLeading leadingSwitches arguments
  let (command, leftOver) ← parseRest word rest
  if leading.leftOver || leftOver then .error .refused else return command

end Command

end Playground.CommandLine
