import Playground.Json.Shown
/-!
# The session

A session is what a playground holds of one user: the document, the options of
the compiler and the view that is selected. Nothing else about it is
remembered, so a session can be shared by sharing these five values.
-/

namespace Playground

/-- How far the compiler reduces its output. -/
inductive MinifyMode where
  | none
  | minify
  | simplify
deriving DecidableEq, Repr

/-- How the compiler splits the document into entry points. -/
inductive EntryStrategy where
  | smart
  | single
  | hook
  | component
deriving DecidableEq, Repr

/-- Which of the outputs is displayed. -/
inductive View where
  | modules
  | bundles
deriving DecidableEq, Repr

/-- The word for a mode. -/
def MinifyMode.name : MinifyMode → Text
  | .none => text "none"
  | .minify => text "minify"
  | .simplify => text "simplify"

/-- The word for a strategy. -/
def EntryStrategy.name : EntryStrategy → Text
  | .smart => text "smart"
  | .single => text "single"
  | .hook => text "hook"
  | .component => text "component"

/-- The word for a view. -/
def View.name : View → Text
  | .modules => text "modules"
  | .bundles => text "bundles"

/-- All modes. -/
def MinifyMode.all : List MinifyMode := [.none, .minify, .simplify]

/-- All strategies. -/
def EntryStrategy.all : List EntryStrategy := [.smart, .single, .hook, .component]

/-- All views. -/
def View.all : List View := [.modules, .bundles]

/-! ## Choices by name -/

/-- The settings that are chosen by a word. -/
inductive Choice where
  | minify
  | strategy
  | view
deriving DecidableEq, Repr

/-- What a message calls a choice. -/
def Choice.title : Choice → Text
  | .minify => text "MinifyMode"
  | .strategy => text "EntryStrategy"
  | .view => text "ViewMode"

/-- A value that is no word of the choice it was given for. -/
structure UnknownChoice where
  choice : Choice
  given : Json

/-- What a refusal reads like. -/
def UnknownChoice.message (e : UnknownChoice) : Text :=
  e.given.shown ++ text " is not a valid " ++ e.choice.title

/-- The member of `all` whose name is the given value. -/
def pick {α : Type} (choice : Choice) (name : α → Text) (all : List α) (given : Json) :
    Except UnknownChoice α :=
  let found := match given with
    | .str t => all.find? fun a => name a = t
    | _ => none
  match found with
  | some a => .ok a
  | none => .error ⟨choice, given⟩

/-- The mode with a given name. -/
def MinifyMode.ofJson (given : Json) : Except UnknownChoice MinifyMode :=
  pick .minify name all given

/-- The strategy with a given name. -/
def EntryStrategy.ofJson (given : Json) : Except UnknownChoice EntryStrategy :=
  pick .strategy name all given

/-- The view with a given name. -/
def View.ofJson (given : Json) : Except UnknownChoice View :=
  pick .view name all given

/-! ## Sessions -/

/-- A session. -/
structure Session where
  source : Text
  minify : MinifyMode := .none
  strategy : EntryStrategy := .smart
  transpile : Bool := false
  view : View := .modules
deriving DecidableEq, Repr

/-- The document that a new session shows. -/
def Session.welcome : Text := text "import \x7b qComponent, qHook, h, useEvent \x7d from '@builder.io/qwik';

export const Greeter = qComponent(\x7b
  onRender: qHook((props) => (
    <div>
      <div>
        Your name:
        <input
          value=\x7bprops.name\x7d
          on:keyup=\x7bqHook<typeof Greeter>(
            (props) => (props.name = (useEvent<KeyboardEvent>().target as HTMLInputElement).value)
          )\x7d
        />
      </div>
      <span>Hello \x7bprops.name\x7d!</span>
    </div>
  )),
\x7d);

"

end Playground
