import Playground.Json
import Playground.Session
import Playground.Settings
/-!
# What the compiler is asked

A compile run is determined by its options, and two runs with equal options are
the same run. The view is no part of them, and the source is the settled text,
which may be older than the session's.
-/

namespace Playground

/-- A file handed to the compiler. -/
structure InputFile where
  path : Text
  code : Text
deriving DecidableEq, Repr

/-- The options of a compile run. -/
structure CompileOptions where
  rootDir : Text
  transpile : Bool
  minify : MinifyMode
  strategy : EntryStrategy
  input : List InputFile
  sourceMaps : Bool := false
deriving DecidableEq, Repr

namespace CompileOptions

/-- The options for compiling `source` under a session. -/
def ofSession (rootDir : Text) (session : Session) (source : Text) : CompileOptions where
  rootDir := rootDir
  transpile := session.transpile
  minify := session.minify
  strategy := session.strategy
  input := [⟨Settings.inputPath, source⟩]

/-- All the source in the options. -/
def code (options : CompileOptions) : Text :=
  options.input.flatMap InputFile.code

/-- The object that the compiler reads. -/
def toJson (options : CompileOptions) : Json :=
  .obj [
    (text "rootDir", .str options.rootDir),
    (text "transpile", .bool options.transpile),
    (text "minify", .str options.minify.name),
    (text "entryStrategy", .str options.strategy.name),
    (text "sourceMaps", .bool options.sourceMaps),
    (text "input", .arr (options.input.map fun file =>
      .obj [(text "path", .str file.path), (text "code", .str file.code)]))]

end CompileOptions

/-- The root directory to use: the given one, unless there is none or an empty one. -/
def Settings.rootDirOr (settings : Settings) : Option Text → Text
  | none | some [] => settings.rootDir
  | some dir => dir

end Playground
