import Playground.Json.Printer
import Playground.Pipeline.Basic
/-!
# What the server answers with

The objects that stand for the session, for the output and for the events of a
stream.
-/

namespace Playground.Server

/-- An object with these fields. -/
def object (fields : List (String × Json)) : Json :=
  .obj (fields.map fun (name, value) => (text name, value))

/-- The session and its fragment. -/
def sessionPayload (p : Pipeline) : Json :=
  object [
    ("source", .str p.session.source),
    ("minify", .str p.session.minify.name),
    ("entry_strategy", .str p.session.strategy.name),
    ("transpile", .bool p.session.transpile),
    ("view", .str p.session.view.name),
    ("fragment", .str p.fragment.current)]

/-- The fields of a range. -/
def rangeFields (range : Highlight) : List (String × Json) := [
  ("start_line", .int range.startLine),
  ("start_col", .int range.startCol),
  ("end_line", .int range.endLine),
  ("end_col", .int range.endCol)]

/-- A diagnostic. -/
def diagnosticPayload (d : Diagnostic) : Json :=
  object [
    ("message", .str d.message),
    ("highlights", .arr (d.highlights.map fun h => object (rangeFields h)))]

/-- A mark. -/
def markerPayload (m : Marker) : Json :=
  object ([("message", .str m.message), ("severity", .str m.severity)] ++ rangeFields m.range)

/-- The artifacts of the selected view. Chunks tell whether they are entries. -/
def artifactsPayload (p : Pipeline) : Json :=
  match p.displayed with
  | .inl chunks =>
    .arr (chunks.map fun c =>
      object [("path", .str c.path), ("code", .str c.code), ("is_entry_point", .bool c.isEntry)])
  | .inr modules =>
    .arr (modules.map fun m => object [("path", .str m.path), ("code", .str m.code)])

/-- The output together with the marks that the editor shows. -/
def outputPayload (p : Pipeline) (markers : List Marker) : Json :=
  object [
    ("generation", .int p.output.generation),
    ("phase", .str p.phase.name),
    ("view", .str p.session.view.name),
    ("artifacts", artifactsPayload p),
    ("diagnostics", .arr (p.output.diagnostics.map diagnosticPayload)),
    ("markers", .arr (markers.map markerPayload))]

/-- An event of a stream. -/
def eventText (kind : String) (generation : Nat) : Text :=
  let event := object [("type", .str (text kind)), ("generation", .int generation)]
  text "data: " ++ Json.render .spaced event ++ text "\n\n"

/-- What a stream says when nothing has happened for long. -/
def keepaliveText : Text := text ": keepalive\n\n"

/-- How long nothing must happen, in milliseconds. -/
def keepaliveInterval : Nat := 30000

end Playground.Server
