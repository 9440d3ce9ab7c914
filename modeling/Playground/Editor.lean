import Playground.Compile.Result
/-!
# The editor

An editor shows markers, and some editors also hold the text and tell others
when it changes. A diagnostic is marked at its first highlight, or at the very
beginning when it has none.
-/

namespace Playground

/-- A mark in the text. -/
structure Marker where
  message : Text
  severity : Text := text "error"
  range : Highlight
deriving DecidableEq, Repr

/-- The mark for a diagnostic. -/
def Marker.ofDiagnostic (d : Diagnostic) : Marker where
  message := d.message
  range := d.highlights.headD ⟨1, 1, 1, 1⟩

/-- What an editor can do. -/
inductive EditorKind where
  /-- It holds a text and shows markers. -/
  | memory
  /-- It shows markers. -/
  | markersOnly
  /-- It is to show markers but breaks. -/
  | broken
deriving DecidableEq, Repr

/-- An editor. Those who listen to it are told of every change of its text. -/
structure Editor (Listener : Type) where
  kind : EditorKind := .memory
  text : Text := []
  markers : List Marker := []
  listeners : List Listener := []

namespace Editor

variable {Listener : Type}

/-- Adds a listener to an editor that holds a text; the others never change. -/
def listen (e : Editor Listener) (l : Listener) : Editor Listener :=
  match e.kind with
  | .memory => { e with listeners := e.listeners ++ [l] }
  | _ => e

/-- Sets the text. Whoever listens is to be told. -/
def setText (e : Editor Listener) (text : Text) : Editor Listener :=
  { e with text }

/-- The text, if the editor holds one. -/
def text? (e : Editor Listener) : Option Text :=
  match e.kind with
  | .memory => some e.text
  | _ => none

/-- The complaint of an editor that breaks. -/
def complaint : Text := Playground.text "surface broken"

/-- Shows a mark for each diagnostic, and no others. -/
def mark (e : Editor Listener) (diagnostics : List Diagnostic) : Except Text (Editor Listener) :=
  match e.kind with
  | .broken => .error complaint
  | _ => .ok { e with markers := diagnostics.map Marker.ofDiagnostic }

end Editor

end Playground
