import Playground.Json.Lenient
/-!
# What the compiler answers

An answer is a list of modules and a list of diagnostics. The compiler may
spell it in several ways, which all come to the same result: positions in
either of two spellings, highlights under one of three names, and an empty list
left out or null. An answer with any offending field is refused as a whole, and
the refusal says how many there are.
-/

namespace Playground

/-- A compiled module. -/
structure Artifact where
  path : Text
  code : Text
deriving DecidableEq, Repr

/-- A range of the document. -/
structure Highlight where
  startLine : Int
  startCol : Int
  endLine : Int
  endCol : Int
deriving DecidableEq, Repr

/-- What the compiler has to say about the document. -/
structure Diagnostic where
  message : Text
  highlights : List Highlight := []
deriving DecidableEq, Repr

/-- The answer of a compile run. -/
structure CompileResult where
  modules : List Artifact
  diagnostics : List Diagnostic
deriving DecidableEq, Repr

/-- A range, its positions in either spelling. -/
def Highlight.ofJson : Json → Json.Checked Highlight :=
  Json.record fun fields =>
    let position (camel snake : String) := Json.required fields [camel, snake] Json.lenientInteger?
    let start := Json.Checked.both (position "startLine" "start_line") (position "startCol" "start_col")
    let stop := Json.Checked.both (position "endLine" "end_line") (position "endCol" "end_col")
    (start.both stop).map fun ((startLine, startCol), endLine, endCol) =>
      { startLine, startCol, endLine, endCol }

/-- A diagnostic, its highlights under any of their names. -/
def Diagnostic.ofJson : Json → Json.Checked Diagnostic :=
  Json.record fun fields =>
    let message := Json.required fields ["message"] Json.text?
    let highlights :=
      Json.listOf fields ["highlights", "code_highlights", "codeHighlights"] Highlight.ofJson
    (Json.Checked.both message highlights).map fun (message, highlights) => { message, highlights }

/-- A module. -/
def Artifact.ofJson : Json → Json.Checked Artifact :=
  Json.record fun fields =>
    let path := Json.required fields ["path"] Json.text?
    let code := Json.required fields ["code"] Json.text?
    (Json.Checked.both path code).map fun (path, code) => { path, code }

/-- The result that an answer spells, or how many of its fields offend. -/
def CompileResult.ofJson : Json → Json.Checked CompileResult :=
  Json.record fun fields =>
    let modules := Json.listOf fields ["modules"] Artifact.ofJson
    let diagnostics := Json.listOf fields ["diagnostics"] Diagnostic.ofJson
    (Json.Checked.both modules diagnostics).map fun (modules, diagnostics) =>
      { modules, diagnostics }

end Playground
