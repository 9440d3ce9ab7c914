import Playground.Json.Lenient
import Playground.Link.Chunk
import Playground.Log
/-!
# What a bundler puts out

The built-in linker gives its chunks as they are; another engine gives them in
a form that is read leniently. Chunks without code are left out. A bundling
pass gives chunks or nothing, and what went wrong is logged, so that it never
stops a run.
-/

namespace Playground

/-- A chunk that is displayed. -/
structure BundleChunk where
  path : Text
  code : Text
  isEntry : Bool
deriving DecidableEq, Repr

namespace BundleChunk

/-- The chunk that the linker made. -/
def ofLinked (chunk : Link.Chunk) : BundleChunk :=
  ⟨chunk.fileName, chunk.code, chunk.isEntry⟩

/-- A chunk of an engine's output; none when it has no code. -/
def ofJson : Json → Json.Checked (Option BundleChunk) :=
  Json.record fun fields =>
    let path := Json.required fields ["fileName", "file_name"] Json.text?
    let code : Json.Checked (Option Text) :=
      match Json.firstField? fields ["code"] with
      | none | some .null => .ok none
      | some value => Json.Checked.ofOption ((Json.text? value).map some)
    let isEntry : Json.Checked Bool :=
      match Json.firstField? fields ["isEntry", "is_entry"] with
      | none => .ok false
      | some value => Json.Checked.ofOption (Json.lenientFlag? value)
    ((Json.Checked.both path code).both isEntry).map fun ((path, code), isEntry) =>
      code.map fun code => { path, code, isEntry }

/-- The chunks of an engine's output. -/
def listOfJson : Json → Json.Checked (List BundleChunk) :=
  Json.record fun fields =>
    match Json.firstField? fields ["output"] with
    | some (.arr items) => (Json.Checked.all (items.map ofJson)).map (·.filterMap id)
    | _ => .error 1

end BundleChunk

/-- What an engine does with a set of modules. -/
inductive EngineReply where
  | linked (chunks : List Link.Chunk)
  | answered (raw : Json)
  | failed (failure : Failure)

/-- What an engine does, after the warnings that it gave. -/
structure EngineRun where
  warnings : List Text := []
  reply : EngineReply

/-- A bundling pass: the chunks, unless it failed, and what was logged. -/
abbrev BundleOutcome := Option (List BundleChunk) × List LogRecord

namespace EngineRun

/-- What the built-in linker does with some modules. -/
def ofLinker (entry : Text) (modules : List Artifact) : EngineRun :=
  match Link.Graph.ofModules modules entry with
  | .error failure => ⟨[], .failed (.bundle failure)⟩
  | .ok g =>
    match g.generate (text "es") with
    | .ok (chunks, warnings) => ⟨warnings, .linked chunks⟩
    | .error refusal => ⟨refusal.warnings, .failed (.bundle refusal.failure)⟩

/-- What a bundling pass makes of an engine's run. -/
def outcome (entry : Text) (run : EngineRun) : BundleOutcome :=
  let warnings := run.warnings.map fun w => LogRecord.warning (text "Bundler: " ++ w)
  match run.reply with
  | .linked chunks => (some (chunks.map BundleChunk.ofLinked), warnings)
  | .answered raw =>
    match BundleChunk.listOfJson raw with
    | .ok chunks => (some chunks, warnings)
    | .error _ =>
      (none, warnings ++ [LogRecord.failure (text "Bundler returned a malformed output") .badOutput])
  | .failed failure =>
    (none, warnings ++ [LogRecord.failure (text "Bundling " ++ entry ++ text " failed") failure])

end EngineRun

end Playground
