import Playground.Link.Externals
import Playground.Link.Order
import Playground.Text.Blank
/-!
# Chunks

Every root has a chunk: the entry, and each module that is imported
dynamically. In a chunk the statements that connect modules are replaced. From
an import there remain declarations of the local names, or nothing when the
names are the same already; an exported declaration of a module that is not the root
loses what makes it an export; and a dynamic import names the chunk of its
target.

Stretches of a source are replaced in its octets, each by its place in the
source as it was. So where one stretch lies in another one, what is replaced
last reaches too far or not far enough, and what comes out may be no text.
-/

namespace Playground.Link

open Source

/-- A chunk as the linker puts it out. -/
structure Chunk where
  fileName : Text
  code : Text
  isEntry : Bool
  isDynamicEntry : Bool
deriving DecidableEq, Repr

/-- The replacement of a stretch of the source. -/
structure Edit where
  span : Span
  replacement : Text
deriving DecidableEq, Repr

namespace Edit

/-- The number of octets that the first `n` characters of a text take. -/
def octets (source : Text) (n : Nat) : Nat :=
  (Utf8.encodeLoose (source.take n)).length

/-- Replaces one stretch of a source in its octets, of which some may have been replaced before. -/
def apply (source : Text) (bytes : Bytes) (e : Edit) : Bytes :=
  bytes.take (octets source e.span.start) ++ Utf8.encodeLoose e.replacement ++
    bytes.drop (octets source e.span.stop)

/-- Puts an edit among others: those that begin later come first, and of those that begin together
the ones that were made first. -/
def insert (e : Edit) : List Edit → List Edit
  | [] => [e]
  | f :: rest => if f.span.start ≤ e.span.start then e :: f :: rest else f :: insert e rest

/-- Replaces several stretches, from the back to the front, so that positions stay right. -/
def applyAll (edits : List Edit) (source : Text) : Except Utf8.Malformed Text :=
  Utf8.decode ((edits.foldr insert []).foldl (apply source) (Utf8.encodeLoose source))

end Edit

namespace Graph

/-- The roots of the chunks: the entry first. -/
def roots (g : Graph) : List Text :=
  g.modules.foldl (fun roots m => m.dynamicDeps.foldl (fun roots d => Ordered.add d roots) roots)
    [g.entry]

/-- A name of a chunk that is not taken: the stem itself, or the stem with a number from `n` on. -/
def freeName (stem : Text) (taken : List Text) : Nat → Nat → Text
  | 0, n => stem ++ text "-" ++ Text.ofNat n ++ text ".js"
  | fuel + 1, n =>
    let name := stem ++ text "-" ++ Text.ofNat n ++ text ".js"
    if taken.contains name then freeName stem taken fuel (n + 1) else name

/-- The name of the chunk for a root. -/
def chunkName (id : Text) (taken : List Text) : Text :=
  let base := match Path.basename id with
    | [] => text "chunk"
    | base => base
  let stem := if base.endsWith (text ".js") then base.take (base.length - 3) else base
  let name := stem ++ text ".js"
  if taken.contains name then freeName stem taken taken.length 2 else name

/-- The names of the chunks for some roots. -/
def chunkNames (roots : List Text) : List (Text × Text) :=
  roots.foldl (fun names root => names ++ [(root, chunkName root (names.map Prod.snd))]) []

/-! ## Replacements -/

/-- The object that holds all exports of a module. -/
def exportsObject (g : Graph) (id importer : Text) : Warned Text := do
  let names := (g.exportNames id).mergeSort Text.le
  let entries ← names.mapM fun name => do
    return text ", " ++ Json.renderString true name ++ text ": " ++ (← g.localFor id name importer)
  return text "Object.freeze(\x7b __proto__: null" ++ entries.flatten ++ text " \x7d)"

/-- A declaration of a name. -/
def declare (name value : Text) : Text :=
  text "const " ++ name ++ text " = " ++ value ++ text ";"

/-- The declaration of a local name for an export, unless the names are the same. -/
def rebind (g : Graph) (target imported name importer : Text) : Warned (List Text) := do
  let found ← g.localFor target imported importer
  return if found = name then [] else [declare name found]

/-- What replaces an import of a module. -/
def importLines (g : Graph) (importer target : Text) (i : LinkedImport) : Warned (List Text) := do
  let ofDefault ← match i.default with
    | some name => g.rebind target (text "default") name importer
    | none => pure []
  let ofObject ← match i.object with
    | some name => pure [declare name (← g.exportsObject target importer)]
    | none => pure []
  let ofNamed ← i.named.mapM fun (imported, name) => g.rebind target imported name importer
  return ofDefault ++ ofObject ++ ofNamed.flatten

/-- Replaces imports; those from outside are gathered. -/
def importEdits (g : Graph) (importer : Text) :
    List LinkedImport → Externals → Warned (List Edit × Externals)
  | [], externals => return ([], externals)
  | i :: rest, externals => do
    let (edit, externals) ← match i.target with
      | none => pure ((⟨i.span, []⟩ : Edit), externals.add i)
      | some target => do
        let lines ← g.importLines importer target i
        pure (⟨i.span, Text.join (text "\n") lines⟩, externals)
    let (edits, externals) ← g.importEdits importer rest externals
    return (edit :: edits, externals)

/-- What replaces a re-export. -/
def reExportText (g : Graph) (m : Module) (isRoot : Bool) (r : LinkedReExport) : Warned Text := do
  match r.target with
  | none =>
    if isRoot then return m.source.slice r.span.start r.span.stop
    else
      warn (text "Dropping external re-export from " ++ r.source.quoted ++ text " in " ++ m.id)
      return []
  | some target =>
    match r.taken with
    | .object exported name =>
      let line := declare name (← g.exportsObject target m.id)
      return if isRoot then
        line ++ text "\nexport " ++ Externals.braced [name ++ text " as " ++ exported] ++ text ";"
      else line
    | taken =>
      if !isRoot then return []
      else
        let pairs := match taken with
          | .named pairs => pairs
          | _ => ((g.exportNames target).filter (· ≠ text "default")).map fun n => (n, n)
        let specs ← pairs.mapM fun (imported, exported) => do
          return Externals.aliased (← g.localFor target imported m.id) exported
        return if specs.isEmpty then [] else text "export " ++ Externals.braced specs ++ text ";"

/-- Removes what makes declarations and values exports, or names the values. -/
def leadEdits (m : Module) (isRoot : Bool) : List Edit :=
  if isRoot then []
  else m.leads.map fun lead =>
    ⟨lead.span, match lead.valueName with
      | some name => text "const " ++ name ++ text " = "
      | none => []⟩

/-- Removes export clauses. -/
def clauseEdits (m : Module) (isRoot : Bool) : List Edit :=
  if isRoot then [] else m.clauses.map fun span => ⟨span, []⟩

/-- Lets dynamic imports name chunks. -/
def siteEdits (names : List (Text × Text)) (m : Module) : List Edit :=
  m.sites.map fun site =>
    let name := (names.lookup site.target).getD []
    ⟨site.span, Json.renderString true (text "./" ++ name)⟩

/-- Work that gives warnings, and that ends where octets are no text. -/
abbrev Rendered := ExceptT Utf8.Malformed Warned

/-- The text of a module in a chunk. -/
def renderModule (g : Graph) (names : List (Text × Text)) (isRoot : Bool) (m : Module)
    (externals : Externals) : Rendered (Text × Externals) := do
  let (imports, externals) ← g.importEdits m.id m.imports externals
  let reExports : List Edit ← (m.reExports.mapM fun r => do
    return ⟨r.span, ← g.reExportText m isRoot r⟩ : Warned (List Edit))
  let edits := imports ++ leadEdits m isRoot ++ clauseEdits m isRoot ++ reExports ++ siteEdits names m
  return (← Edit.applyAll edits m.source, externals)

/-! ## Rendering -/

/-- A text without line feeds at its ends. -/
def trimLines (t : Text) : Text :=
  let isBreak (c : CodePoint) : Bool := c = CodePoint.ofChar '\n'
  ((t.dropWhile isBreak).reverse.dropWhile isBreak).reverse

/-- The code of the chunk of a root. -/
def renderChunk (g : Graph) (names : List (Text × Text)) (root : Text) : Rendered Text := do
  let order ← g.staticOrder root
  let (bodies, externals) ← order.foldlM
    (fun (bodies, externals) id => do
      match find? g.modules id with
      | none => return (bodies, externals)
      | some m =>
        let (body, externals) ← g.renderModule names (id = root) m externals
        return (if body.all CodePoint.isBlank then bodies else bodies ++ [trimLines body], externals))
    (([], []) : List Text × Externals)
  let header := externals.render
  let parts := if header.isEmpty then bodies else header :: bodies
  return Text.join (text "\n\n") parts ++ text "\n"

/-- The names under which the output format is known. -/
def formats : List Text := [text "es", text "esm", text "module"]

/-- The chunks of all roots, unless one of them is no text. -/
def rendered (g : Graph) : Rendered (List Chunk) :=
  let names := chunkNames g.roots
  names.mapM fun (root, fileName) => do
    let code ← g.renderChunk names root
    return { fileName, code, isEntry := root = g.entry, isDynamicEntry := root ≠ g.entry }

/-- What comes of a graph: its chunks, unless one of them is no text, and the warnings in their order. -/
def output (g : Graph) : Except Utf8.Malformed (List Chunk) × List Text :=
  let (found, warnings) := g.rendered.run.run []
  (found, warnings.reverse)

/-- Why no chunks are put out, and what was warned of before. -/
structure Refusal where
  failure : BundleFailure
  warnings : List Text := []

/-- The chunks in a format that is asked for, with the warnings in their order. -/
def generate (g : Graph) (format : Text) : Except Refusal (List Chunk × List Text) :=
  if formats.contains format then
    match g.output with
    | (.ok chunks, warnings) => .ok (chunks, warnings)
    | (.error bad, warnings) => .error ⟨.undecodable bad, warnings⟩
  else .error { failure := .badFormat format }

end Graph

end Playground.Link
