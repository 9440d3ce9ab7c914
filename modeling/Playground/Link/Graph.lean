import Playground.Link.Module
/-!
# The module graph

Starting from the entry, modules are loaded in breadth-first order of first
reference, each once. A module that cannot be loaded, or whose source is not
well formed, ends the work, and of several the first in that order is reported.

Modules of a finite set reference finitely many others; a budget stands in for
that fact, because hooks in general may go on forever.
-/

namespace Playground.Link

/-- Modules that are linked with each other, in the order in which they were loaded. -/
structure Graph where
  entry : Text
  modules : List Module

namespace Graph

/-- The module with an id. -/
def find? (modules : List Module) (id : Text) : Option Module :=
  modules.find? fun m => m.id = id

/-- The modules that are still to be loaded, with the module that references each of them. -/
abbrev Pending := List (Text × Option Text)

/-- Loads pending modules. `count` names are made up so far, and `loaded` holds the modules so far,
latest first. -/
def loadFrom (hooks : Hooks) (budget : Nat) (count : Nat) (loaded : List Module)
    (pending : Pending) : Except BundleFailure (List Module) :=
  match budget, pending with
  | _, [] => .ok loaded.reverse
  | 0, _ :: _ => .error .overBudget
  | budget + 1, (id, importer) :: rest =>
    if (find? loaded id).isSome then loadFrom hooks budget count loaded rest
    else
      match hooks.load id with
      | none => .error (.unresolved id importer)
      | some source =>
        match Module.read hooks id source count with
        | .error e => .error e
        | .ok (m, count) =>
          let loaded := m :: loaded
          let fresh := m.deps.filter fun d => (find? loaded d).isNone
          loadFrom hooks budget count loaded (rest ++ fresh.map fun d => (d, some id))

/-- Loads the modules that the entry needs. -/
def build (hooks : Hooks) (budget : Nat) (input : Text) : Except BundleFailure Graph :=
  match hooks.resolve input none with
  | none => .error (.unresolved input none)
  | some entry => (loadFrom hooks budget 0 [] [(entry, none)]).map fun modules => { entry, modules }

/-- The specifiers in some code; there are none in code that is not well formed. -/
def specifiersIn (code : Text) : List Text :=
  ((Source.outline? code.toCharsD).map Source.Outline.specifiers).getD []

/-- A budget that suffices for modules with these codes. An id is the entry, or it is a specifier with
or without an ending, and a module references at most as many as there are specifiers at all. -/
def budgetFor (codes : List Text) : Nat :=
  let count := (codes.flatMap specifiersIn).length
  (2 * count + 1) * count + 1

/-- Loads the modules that the entry needs among compiled modules. -/
def ofModules (modules : List Artifact) (input : Text) : Except BundleFailure Graph :=
  build (Hooks.ofModules modules) (budgetFor (modules.map Artifact.code)) input

end Graph

end Playground.Link
