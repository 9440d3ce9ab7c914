import Playground.Compile.Result
import Playground.Text.Path
/-!
# The modules to bundle

A bundler asks two questions: which module a specifier means, and what the code
of a module is. Over a compiled set of modules a relative specifier means the
module of that name with the suffix `.js`, and every other specifier is left to
the environment. A module is found by its path in normal form, and failing that
the first module whose path occurs in what is asked for is taken.
-/

namespace Playground

/-- The answers to a bundler's questions. -/
structure Hooks where
  /-- The module that a specifier means in the importer, if any; without an importer, the entry. -/
  resolve : Text → Option Text → Option Text
  /-- The code of a module. -/
  load : Text → Option Text

namespace Hooks

/-- The module that a specifier means among compiled modules. -/
def resolveRelative (specifier : Text) (importer : Option Text) : Option Text :=
  match importer with
  | none | some [] => some specifier
  | some _ => if specifier.startsWith (text ".") then some (specifier ++ text ".js") else none

/-- The code of a module among compiled modules. -/
def loadFrom (modules : List Artifact) (id : Text) : Option Text :=
  let exact := modules.find? fun m => Path.normalize m.path = Path.normalize id
  let loose := modules.find? fun m => id.contains m.path
  (exact <|> loose).map Artifact.code

/-- The answers that a compiled set of modules gives. -/
def ofModules (modules : List Artifact) : Hooks where
  resolve := resolveRelative
  load := loadFrom modules

end Hooks

end Playground
