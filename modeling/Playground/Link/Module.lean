import Playground.Bundle.Failure
import Playground.Bundle.Modules
import Playground.Ordered
import Playground.Source.Module
/-!
# Linked modules

What the linker remembers of a module: what it imports and from where, what it
exports and under which names, and which stretches of its source are replaced
when it is put into a chunk. Two kinds of names are made up, for the value of a
default export and for the object that holds a module's exports; one counter
over all modules keeps them apart.
-/

namespace Playground.Link

open Source

/-- A static import. Without a target it stays an import of something outside. -/
structure LinkedImport where
  span : Span
  source : Text
  target : Option Text
  default : Option Text
  object : Option Text
  named : List (Text × Text)

/-- What stands in front of an exported declaration or value. -/
structure ExportLead where
  span : Span
  /-- The name that a default value is given. -/
  valueName : Option Text

/-- What a linked re-export takes from its target. -/
inductive Taken where
  | all
  /-- Everything as one object, under a name for other modules and one in the chunk. -/
  | object (exported name : Text)
  | named (pairs : List (Text × Text))

/-- A re-export. -/
structure LinkedReExport where
  span : Span
  source : Text
  target : Option Text
  taken : Taken

/-- A literal of a dynamic import with its target. -/
structure LinkedSite where
  span : Span
  target : Text

/-- What an exported name stands for. -/
inductive Binding where
  /-- A name in the module itself. -/
  | here (name : Text)
  /-- What another module exports under some name. -/
  | there (id : Text) (name : Text)
deriving DecidableEq, Repr

/-- A module as the linker remembers it. -/
structure Module where
  id : Text
  source : Text
  imports : List LinkedImport := []
  leads : List ExportLead := []
  clauses : List Span := []
  reExports : List LinkedReExport := []
  sites : List LinkedSite := []
  staticDeps : List Text := []
  dynamicDeps : List Text := []
  /-- The exported names in order of first appearance. -/
  exports : List (Text × Binding) := []
  /-- The modules all of whose exports are exported again. -/
  stars : List Text := []

namespace Module

/-- Remembers that a module needs another one at once. -/
def needs (m : Module) (target : Option Text) : Module :=
  match target with
  | some t => { m with staticDeps := Ordered.add t m.staticDeps }
  | none => m

/-- Exports a name. -/
def expose (m : Module) (name : Text) (binding : Binding) : Module :=
  { m with exports := Ordered.put name binding m.exports }

/-- Exports several names. -/
def exposeAll (m : Module) (bindings : List (Text × Binding)) : Module :=
  bindings.foldl (fun m (name, binding) => m.expose name binding) m

/-- A name made up by the linker. -/
def madeUp (lead : String) (n : Nat) : Text :=
  text lead ++ Text.ofNat n

/-- Takes an import into account. -/
def addImport (resolve : Text → Option Text) (m : Module) (i : Import) : Module :=
  let target := resolve i.source
  let linked : LinkedImport := ⟨i.span, i.source, target, i.default, i.object, i.named⟩
  { m with imports := m.imports ++ [linked] }.needs target

/-- Takes a re-export into account, `count` names being made up before. -/
def addReExport (resolve : Text → Option Text) (m : Module) (count : Nat) (span : Span)
    (source : Text) (what : ReExported) : Module × Nat :=
  let target := resolve source
  let (taken, count) : Taken × Nat := match what with
    | .all => (.all, count)
    | .object exported => (.object exported (madeUp "__ns_" (count + 1)), count + 1)
    | .named pairs => (.named pairs, count)
  let linked : LinkedReExport := ⟨span, source, target, taken⟩
  let m := { m with reExports := m.reExports ++ [linked] }.needs target
  match target with
  | none => (m, count)
  | some t =>
    let m := match taken with
      | .all => { m with stars := m.stars ++ [t] }
      | .object exported name => m.expose exported (.here name)
      | .named pairs =>
        m.exposeAll (pairs.map fun (imported, exported) => (exported, .there t imported))
    (m, count)

/-- Takes an export into account. -/
def addExport (resolve : Text → Option Text) (m : Module) (count : Nat) (span : Span) :
    Export → Module × Nat
  | .reExport source what => m.addReExport resolve count span source what
  | .declaration isDefault start declaration =>
    let names := declaration.names
    let bindings : List (Text × Binding) :=
      if isDefault then (names.take 1).map fun n => (text "default", .here n)
      else names.map fun n => (n, .here n)
    ({ m.exposeAll bindings with leads := m.leads ++ [⟨⟨span.start, start⟩, none⟩] }, count)
  | .value start =>
    let name := madeUp "__default_" (count + 1)
    let m := m.expose (text "default") (.here name)
    ({ m with leads := m.leads ++ [⟨⟨span.start, start⟩, some name⟩] }, count + 1)
  | .clause pairs =>
    let m := m.exposeAll (pairs.map fun (name, exported) => (exported, .here name))
    ({ m with clauses := m.clauses ++ [span] }, count)
  | .other => (m, count)

/-- Takes an item into account. -/
def addItem (resolve : Text → Option Text) (m : Module) (count : Nat) : Item → Module × Nat
  | .importing i => (m.addImport resolve i, count)
  | .exporting span e => m.addExport resolve count span e
  | .other => (m, count)

/-- Takes a dynamic import into account. -/
def addSite (resolve : Text → Option Text) (m : Module) (site : ImportSite) : Module :=
  match resolve site.source with
  | none => m
  | some target =>
    { m with
      sites := m.sites ++ [⟨site.span, target⟩]
      dynamicDeps := Ordered.add target m.dynamicDeps }

/-- The module with a given outline, and how many names are made up after it. -/
def ofOutline (resolve : Text → Option Text) (id source : Text) (count : Nat) (o : Outline) :
    Module × Nat :=
  let (m, count) := o.items.foldl (fun (m, count) item => addItem resolve m count item)
    ({ id, source }, count)
  (o.sites.foldl (addSite resolve) m, count)

/-- Reads the source of a module, `count` names being made up before. -/
def read (hooks : Hooks) (id source : Text) (count : Nat) : Except BundleFailure (Module × Nat) :=
  match Utf8.firstSurrogates 0 source with
  | some bad => .error (.unencodable bad)
  | none =>
    match Source.outline? source.toCharsD with
    | none => .error (.badSource id)
    | some o => .ok (ofOutline (fun specifier => hooks.resolve specifier (some id)) id source count o)

/-- All modules that a module needs, at once or later. -/
def deps (m : Module) : List Text :=
  m.staticDeps ++ m.dynamicDeps

end Module

end Playground.Link
