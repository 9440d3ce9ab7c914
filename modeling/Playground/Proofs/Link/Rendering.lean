import Playground.Proofs.Link.Exports
import Playground.Proofs.Link.FileNames

/-!
# What is put into a chunk

What a chunk shows of a module does not depend on the warnings that were given
before, so everything that is rendered has a plain form. A module is shown by
replacing stretches of its source: imports, re-exports and the literals of
dynamic imports in every chunk, and what makes declarations, values and names
exports only where the module is not the root. So whatever else a root exports
is left as it is, and nothing of any other module is exported. Imports from
outside are gathered at the top, and none is lost there but a second default of
one source.

The work ends early where the octets that a module comes to are no text. Whether
they are depends on the module and on whether it is the root, and on nothing else,
so there are chunks exactly if all modules of all chunks come to texts.
-/

namespace Playground

theorem Text.infix_join_of_mem {sep t : Text} {ts : List Text} (mem : t ∈ ts) :
    t <:+: join sep ts := by
  induction ts with
  | nil => cases mem
  | cons first rest ih =>
      cases rest with
      | nil =>
          rw [List.mem_singleton.mp mem]
          exact List.infix_rfl
      | cons second rest =>
          rcases List.mem_cons.mp mem with rfl | mem
          · exact ((List.prefix_append _ _).trans (List.prefix_append _ _)).isInfix
          · exact (ih mem).trans (List.suffix_append _ _).isInfix

namespace Link

/-! ## Imports from outside -/

namespace Externals

variable {externals : Externals} {i : LinkedImport} {name : Text}

/-- What a chunk imports from some source gives a name to something. -/
inductive Binds (externals : Externals) (name : Text) : Prop where
  | object {source : Text} {e : External} (found : externals.lookup source = some e)
      (mem : name ∈ e.objects)
  | named {source imported : Text} {e : External} (found : externals.lookup source = some e)
      (mem : (imported, name) ∈ e.named)

/-- What is imported from one source with another import from there. -/
def extended (e : External) (i : LinkedImport) : External where
  default := e.default <|> i.default
  objects := (i.object.map fun o => Ordered.add o e.objects).getD e.objects
  named := i.named.foldl (fun pairs pair => Ordered.add pair pairs) e.named

theorem lookup_add (externals : Externals) (i : LinkedImport) (source : Text) :
    (externals.add i).lookup source =
      if source = i.source then some (extended ((externals.lookup i.source).getD {}) i)
      else externals.lookup source :=
  Ordered.lookup_put

theorem mem_objects_extended {e : External} (mem : name ∈ e.objects) :
    name ∈ (extended e i).objects := by
  unfold extended
  cases i.object with
  | none => exact mem
  | some o => exact Ordered.mem_add_iff.mpr (.inl mem)

theorem mem_named_extended {e : External} {pair : Text × Text} (mem : pair ∈ e.named) :
    pair ∈ (extended e i).named :=
  Ordered.mem_foldl_add_iff.mpr (.inl mem)

theorem Binds.add (h : externals.Binds name) (i : LinkedImport) :
    (externals.add i).Binds name := by
  have lookup := lookup_add externals i
  cases h with
  | @object source e found mem =>
      by_cases same : source = i.source
      · have kept : name ∈ ((externals.lookup i.source).getD {}).objects := by
          rw [← same, found]
          exact mem
        exact .object ((lookup source).trans (if_pos same)) (mem_objects_extended kept)
      · exact .object ((lookup source).trans ((if_neg same).trans found)) mem
  | @named source imported e found mem =>
      by_cases same : source = i.source
      · have kept : (imported, name) ∈ ((externals.lookup i.source).getD {}).named := by
          rw [← same, found]
          exact mem
        exact .named ((lookup source).trans (if_pos same)) (mem_named_extended kept)
      · exact .named ((lookup source).trans ((if_neg same).trans found)) mem

/-- Gathers an import, if it comes from outside. -/
def gather (externals : Externals) (i : LinkedImport) : Externals :=
  match i.target with
  | none => externals.add i
  | some _ => externals

theorem Binds.gather (h : externals.Binds name) (i : LinkedImport) :
    (externals.gather i).Binds name := by
  unfold Externals.gather
  cases i.target with
  | none => exact h.add i
  | some => exact h

end Externals

namespace Graph

open Source

variable {g : Graph} {m : Module} {r : LinkedReExport} {i : LinkedImport}
  {names : List (Text × Text)} {root target name message : Text}

/-! ## Names and objects -/

/-- The name that an export stands for in a chunk. -/
def localName (g : Graph) (target name : Text) : Text :=
  (g.resolveExport target name).getD (text "undefined")

theorem gives_localFor (g : Graph) (target name importer : Text) :
    Gives (g.localFor target name importer) (g.localName target name) := by
  unfold localFor localName
  cases g.resolveExport target name with
  | some found => exact .pure found
  | none => exact (gives_warn _).bind (.pure _)

/-- The object that holds all exports of a module. -/
def objectText (g : Graph) (target : Text) : Text :=
  text "Object.freeze(\x7b __proto__: null" ++
    (((g.exportNames target).mergeSort Text.le).map fun name =>
      text ", " ++ Json.renderString true name ++ text ": " ++ g.localName target name).flatten ++
    text " \x7d)"

theorem gives_exportsObject (g : Graph) (target importer : Text) :
    Gives (g.exportsObject target importer) (g.objectText target) := by
  have entry (name : Text) : Gives
      (do return text ", " ++ Json.renderString true name ++ text ": " ++
        (← g.localFor target name importer))
      (text ", " ++ Json.renderString true name ++ text ": " ++ g.localName target name) :=
    (gives_localFor g target name importer).bind (.pure _)
  exact (Gives.mapM entry _).bind (.pure _)

/-! ## Imports -/

/-- The declaration of a local name for an export, unless the names are the same. -/
def bindingLines (g : Graph) (target imported name : Text) : List Text :=
  if g.localName target imported = name then [] else [declare name (g.localName target imported)]

theorem gives_rebind (g : Graph) (target imported name importer : Text) :
    Gives (g.rebind target imported name importer) (g.bindingLines target imported name) :=
  (gives_localFor g target imported importer).bind (.pure _)

/-- The declarations in the place of an import of a module. -/
def declarations (g : Graph) (target : Text) (i : LinkedImport) : List Text :=
  (i.default.map fun name => g.bindingLines target (text "default") name).getD [] ++
    (i.object.map fun name => [declare name (g.objectText target)]).getD [] ++
    (i.named.map fun (imported, name) => g.bindingLines target imported name).flatten

theorem gives_importLines (g : Graph) (importer target : Text) (i : LinkedImport) :
    Gives (g.importLines importer target i) (g.declarations target i) := by
  have ofNamed := Gives.mapM (fun pair : Text × Text =>
    gives_rebind g target pair.1 pair.2 importer) i.named
  have ofDefault (name : Text) := gives_rebind g target (text "default") name importer
  have ofObject := gives_exportsObject g target importer
  unfold importLines declarations
  cases i.default with
  | none =>
      refine (Gives.pure []).bind ?_
      cases i.object with
      | none => exact (Gives.pure []).bind (ofNamed.bind (.pure _))
      | some => exact ofObject.bind ((Gives.pure _).bind (ofNamed.bind (.pure _)))
  | some name =>
      refine (ofDefault name).bind ?_
      cases i.object with
      | none => exact (Gives.pure []).bind (ofNamed.bind (.pure _))
      | some => exact ofObject.bind ((Gives.pure _).bind (ofNamed.bind (.pure _)))

/-- What stands in the place of an import. -/
def importText (g : Graph) (i : LinkedImport) : Text :=
  match i.target with
  | none => []
  | some target => Text.join (text "\n") (g.declarations target i)

theorem gives_importEdits (g : Graph) (importer : Text) (imports : List LinkedImport)
    (externals : Externals) : Gives (g.importEdits importer imports externals)
      (imports.map fun i => ⟨i.span, g.importText i⟩,
        imports.foldl Externals.gather externals) := by
  induction imports generalizing externals with
  | nil => exact .pure _
  | cons i rest ih =>
      rw [importEdits, List.map_cons, List.foldl_cons, importText, Externals.gather]
      cases i.target with
      | none =>
          refine (Gives.pure _).bind ?_
          exact (ih _).bind (.pure _)
      | some target =>
          refine (gives_importLines g importer target i).bind ?_
          refine (Gives.pure _).bind ?_
          exact (ih _).bind (.pure _)

/-! ## Re-exports -/

/-- The names that a re-export takes from a module, each with the name under
which it is exported again. -/
def takenPairs (g : Graph) (target : Text) : Taken → List (Text × Text)
  | .named pairs => pairs
  | _ => ((g.exportNames target).filter (· ≠ text "default")).map fun n => (n, n)

/-- What an export clause in the place of a re-export exports: the name in the
chunk, and the name under which it is exported. -/
def clauseOf (g : Graph) (target : Text) : Taken → List (Text × Text)
  | .object exported name => [(name, exported)]
  | taken => (g.takenPairs target taken).map fun (imported, exported) =>
      (g.localName target imported, exported)

/-- An export clause, if it names anything. -/
def clauseLine (specs : List Text) : Text :=
  if specs.isEmpty then [] else text "export " ++ Externals.braced specs ++ text ";"

/-- What stands in the place of a re-export. -/
def reExportLine (g : Graph) (m : Module) (isRoot : Bool) (r : LinkedReExport) : Text :=
  match r.target with
  | none => if isRoot then m.source.slice r.span.start r.span.stop else []
  | some target =>
    match r.taken with
    | .object exported name =>
      let line := declare name (g.objectText target)
      if isRoot then
        line ++ text "\nexport " ++ Externals.braced [name ++ text " as " ++ exported] ++ text ";"
      else line
    | taken =>
      if !isRoot then []
      else
        clauseLine ((g.clauseOf target taken).map fun (name, exported) =>
          Externals.aliased name exported)

theorem gives_aliased (g : Graph) (target importer : Text) (pair : Text × Text) : Gives
    (do return Externals.aliased (← g.localFor target pair.1 importer) pair.2)
    (Externals.aliased (g.localName target pair.1) pair.2) :=
  (gives_localFor g target pair.1 importer).bind (.pure _)

theorem gives_reExportText (g : Graph) (m : Module) (isRoot : Bool) (r : LinkedReExport) :
    Gives (g.reExportText m isRoot r) (g.reExportLine m isRoot r) := by
  unfold reExportText reExportLine clauseOf
  cases r.target with
  | none =>
      cases isRoot with
      | true => exact .pure _
      | false => exact (gives_warn _).bind (.pure _)
  | some target =>
      cases r.taken with
      | object exported name =>
          refine (gives_exportsObject g target m.id).bind ?_
          cases isRoot <;> exact .pure _
      | all | named =>
          cases isRoot with
          | false => exact .pure []
          | true =>
              simp only [Bool.not_true, Bool.false_eq_true, if_false, List.map_map]
              exact (Gives.mapM (gives_aliased g target m.id) _).bind (.pure _)

/-- The replacements that connect a module to the others of a chunk. -/
def edits (g : Graph) (names : List (Text × Text)) (isRoot : Bool) (m : Module) : List Edit :=
  (m.imports.map fun i => ⟨i.span, g.importText i⟩) ++ leadEdits m isRoot ++
    clauseEdits m isRoot ++ (m.reExports.map fun r => ⟨r.span, g.reExportLine m isRoot r⟩) ++
    siteEdits names m

theorem mem_edits_iff {isRoot : Bool} {e : Edit} : e ∈ g.edits names isRoot m ↔
    (∃ i ∈ m.imports, e = ⟨i.span, g.importText i⟩) ∨ e ∈ leadEdits m isRoot ∨
      e ∈ clauseEdits m isRoot ∨ (∃ r ∈ m.reExports, e = ⟨r.span, g.reExportLine m isRoot r⟩) ∨
      e ∈ siteEdits names m := by
  simp only [edits, List.mem_append, List.mem_map, or_assoc, eq_comm]

theorem gives_reExportEdit (g : Graph) (m : Module) (isRoot : Bool) (r : LinkedReExport) :
    Gives (do return (⟨r.span, ← g.reExportText m isRoot r⟩ : Edit))
      ⟨r.span, g.reExportLine m isRoot r⟩ :=
  (gives_reExportText g m isRoot r).bind (.pure _)

/-- What a module comes to in the chunk of a root. -/
def body (g : Graph) (names : List (Text × Text)) (root : Text) (m : Module) :
    Except Utf8.Malformed Text :=
  Edit.applyAll (g.edits names (m.id = root) m) m.source

theorem gives_renderModule (g : Graph) (names : List (Text × Text)) (root : Text) (m : Module)
    (externals : Externals) : Gives (g.renderModule names (m.id = root) m externals).run
      ((g.body names root m).map fun t => (t, m.imports.foldl Externals.gather externals)) := by
  refine (gives_importEdits g m.id m.imports externals).lift_bind ?_
  refine (Gives.mapM (gives_reExportEdit g m (m.id = root)) m.reExports).lift_bind ?_
  exact Gives.bind_run (.pure _) fun _ => .pure _

/-- The modules of the chunk of a root, in their order. -/
def shown (g : Graph) (root : Text) : List Module :=
  (g.order root).filterMap (find? g.modules)

theorem mem_shown_iff {hooks : Hooks} (w : g.WellFormed hooks) :
    m ∈ g.shown root ↔ m ∈ g.modules ∧ m.id ∈ g.order root := by
  refine List.mem_filterMap.trans ⟨fun ⟨name, mem, found⟩ => ?_, fun ⟨mem, listed⟩ => ?_⟩
  · rw [id_of_find? found]
    exact ⟨mem_of_find? found, mem⟩
  · exact ⟨m.id, listed, find?_of_mem w.distinct mem⟩

/-- What a chunk imports from outside. -/
def externals (g : Graph) (root : Text) : Externals :=
  ((g.shown root).flatMap Module.imports).foldl Externals.gather []

/-- The text that a module comes to in the chunk of a root, if it does. -/
def bodyText (g : Graph) (names : List (Text × Text)) (root : Text) (m : Module) : Text :=
  (g.body names root m).toOption.getD []

/-- What a chunk shows of its modules, blank ones left out. -/
def bodies (g : Graph) (names : List (Text × Text)) (root : Text) (modules : List Module) :
    List Text :=
  ((modules.map (g.bodyText names root)).filter fun body => !body.all CodePoint.isBlank).map
    trimLines

/-- The code of a chunk: its imports from outside, and behind them its modules. -/
def chunkText (g : Graph) (names : List (Text × Text)) (root : Text) : Text :=
  let header := (g.externals root).render
  let bodies := g.bodies names root (g.shown root)
  Text.join (text "\n\n") (if header.isEmpty then bodies else header :: bodies) ++ text "\n"

/-- All modules of the chunk of a root come to texts. -/
def Renders (g : Graph) (names : List (Text × Text)) (root : Text) : Prop :=
  ∀ m ∈ g.shown root, g.body names root m = .ok (g.bodyText names root m)

/-- A step of the work on a chunk: puts a module behind those before it. -/
def appendModule (g : Graph) (names : List (Text × Text)) (root : Text)
    (before : List Text × Externals) (name : Text) :
    Except Utf8.Malformed (List Text × Externals) :=
  match find? g.modules name with
  | none => .ok before
  | some m => do
    let body ← g.body names root m
    return (if body.all CodePoint.isBlank then before.1 else before.1 ++ [trimLines body],
      m.imports.foldl Externals.gather before.2)

theorem bodyText_eq {t : Text} (h : g.body names root m = .ok t) :
    g.bodyText names root m = t := by
  rw [bodyText, h]
  rfl

/-- The work on a chunk comes to an end exactly if all modules come to texts. -/
theorem foldlM_appendModule_eq_ok_iff {order : List Text} {before after : List Text × Externals} :
    order.foldlM (g.appendModule names root) before = .ok after ↔
      (∀ m ∈ order.filterMap (find? g.modules),
        g.body names root m = .ok (g.bodyText names root m)) ∧
      after = (before.1 ++ g.bodies names root (order.filterMap (find? g.modules)),
        ((order.filterMap (find? g.modules)).flatMap Module.imports).foldl
          Externals.gather before.2) := by
  induction order generalizing before with
  | nil => simp [bodies, pure, Except.pure, eq_comm]
  | cons name rest ih =>
      rw [List.foldlM_cons, List.filterMap_cons]
      cases known : find? g.modules name with
      | none =>
          have skip : g.appendModule names root before name = .ok before := by
            rw [appendModule, known]
          rw [skip]
          exact ih
      | some m =>
          have step : g.appendModule names root before name = (g.body names root m >>= fun body =>
              .ok (if body.all CodePoint.isBlank then before.1 else before.1 ++ [trimLines body],
                m.imports.foldl Externals.gather before.2)) := by
            rw [appendModule, known]
            rfl
          rw [step]
          cases made : g.body names root m with
          | error bad =>
              refine iff_of_false (fun h => by cases h) fun ⟨h, _⟩ => ?_
              have := h m List.mem_cons_self
              rw [made] at this
              cases this
          | ok body =>
              refine ih.trans ?_
              rw [List.forall_mem_cons, made, bodyText_eq made, bodies, bodies, List.map_cons,
                List.filter_cons, bodyText_eq made, List.flatMap_cons, List.foldl_append]
              cases body.all CodePoint.isBlank with
              | true => simp
              | false => simp

/-- A step of the work on a chunk, with its warnings. -/
def renderNext (g : Graph) (names : List (Text × Text)) (root : Text) :
    List Text × Externals → Text → Rendered (List Text × Externals) :=
  fun (bodies, externals) name => do
    match find? g.modules name with
    | none => return (bodies, externals)
    | some m =>
      let (body, externals) ← g.renderModule names (name = root) m externals
      return (if body.all CodePoint.isBlank then bodies else bodies ++ [trimLines body],
        externals)

theorem gives_renderNext (g : Graph) (names : List (Text × Text)) (root : Text)
    (before : List Text × Externals) (name : Text) :
    Gives (g.renderNext names root before name).run (g.appendModule names root before name) := by
  unfold renderNext appendModule
  cases known : find? g.modules name with
  | none => exact .pure _
  | some m =>
      show Gives _ (g.body names root m >>= _)
      have work := (gives_renderModule g names root m before.2).bind_run
        (k := fun (body, externals) => return (if body.all CodePoint.isBlank then before.1
          else before.1 ++ [trimLines body], externals)) fun _ => .pure _
      rw [id_of_find? known] at work
      refine Eq.mp (congrArg _ ?_) work
      cases g.body names root m <;> rfl

/-- The code of a chunk, if there is one. -/
def chunkResult (g : Graph) (names : List (Text × Text)) (root : Text) :
    Except Utf8.Malformed Text := do
  let (bodies, externals) ← (g.order root).foldlM (g.appendModule names root) ([], [])
  let header := externals.render
  return Text.join (text "\n\n") (if header.isEmpty then bodies else header :: bodies) ++
    text "\n"

theorem gives_renderChunk (g : Graph) (names : List (Text × Text)) (root : Text) :
    Gives (g.renderChunk names root).run (g.chunkResult names root) := by
  refine (gives_staticOrder g root).lift_bind ?_
  exact (Gives.foldlM_run (gives_renderNext g names root) (g.order root) ([], [])).bind_run
    fun _ => .pure _

theorem chunkResult_eq_ok_iff {t : Text} : g.chunkResult names root = .ok t ↔
    g.Renders names root ∧ t = g.chunkText names root := by
  refine Except.bind_eq_ok_iff.trans ?_
  simp only [foldlM_appendModule_eq_ok_iff]
  constructor
  · rintro ⟨_, ⟨renders, rfl⟩, h⟩
    exact ⟨renders, (Except.ok.inj h).symm⟩
  · rintro ⟨renders, rfl⟩
    exact ⟨_, ⟨renders, rfl⟩, rfl⟩

/-- The chunk for a root with the name of the chunk. -/
def chunkOf (g : Graph) (name : Text × Text) : Chunk where
  fileName := name.2
  code := g.chunkText (chunkNames g.roots) name.1
  isEntry := name.1 = g.entry
  isDynamicEntry := name.1 ≠ g.entry

/-- A step of the work on all chunks. -/
def renderNamed (g : Graph) (name : Text × Text) : Rendered Chunk := do
  let code ← g.renderChunk (chunkNames g.roots) name.1
  return {
    fileName := name.2
    code
    isEntry := name.1 = g.entry
    isDynamicEntry := name.1 ≠ g.entry }

/-- The chunk for a root, if there is one. -/
def namedResult (g : Graph) (name : Text × Text) : Except Utf8.Malformed Chunk := do
  let code ← g.chunkResult (chunkNames g.roots) name.1
  return {
    fileName := name.2
    code
    isEntry := name.1 = g.entry
    isDynamicEntry := name.1 ≠ g.entry }

theorem gives_renderNamed (g : Graph) (name : Text × Text) :
    Gives (g.renderNamed name).run (g.namedResult name) :=
  (gives_renderChunk g (chunkNames g.roots) name.1).bind_run fun _ => .pure _

theorem namedResult_eq_ok_iff {name : Text × Text} {chunk : Chunk} :
    g.namedResult name = .ok chunk ↔
      g.Renders (chunkNames g.roots) name.1 ∧ chunk = g.chunkOf name := by
  refine Except.bind_eq_ok_iff.trans ?_
  simp only [chunkResult_eq_ok_iff]
  constructor
  · rintro ⟨_, ⟨renders, rfl⟩, h⟩
    exact ⟨renders, (Except.ok.inj h).symm⟩
  · rintro ⟨renders, rfl⟩
    exact ⟨_, ⟨renders, rfl⟩, rfl⟩

theorem gives_rendered (g : Graph) :
    Gives g.rendered.run ((chunkNames g.roots).mapM g.namedResult) :=
  Gives.mapM_run (gives_renderNamed g) (chunkNames g.roots)

/-- All modules of all chunks come to texts. -/
def RendersAll (g : Graph) : Prop :=
  ∀ root ∈ g.roots, g.Renders (chunkNames g.roots) root

theorem mapM_namedResult_eq_ok_iff {chunks : List Chunk} :
    (chunkNames g.roots).mapM g.namedResult = .ok chunks ↔
      g.RendersAll ∧ chunks = (chunkNames g.roots).map g.chunkOf := by
  have all (names : List (Text × Text)) (chunks : List Chunk) :
      names.mapM g.namedResult = .ok chunks ↔
        (∀ name ∈ names, g.Renders (chunkNames g.roots) name.1) ∧
          chunks = names.map g.chunkOf := by
    induction names generalizing chunks with
    | nil => simp [pure, Except.pure, eq_comm]
    | cons name rest ih =>
        rw [List.mapM_cons, Except.bind_eq_ok_iff, List.forall_mem_cons]
        simp only [Except.bind_eq_ok_iff, namedResult_eq_ok_iff, ih]
        constructor
        · rintro ⟨_, ⟨first, rfl⟩, _, ⟨later, rfl⟩, h⟩
          exact ⟨⟨first, later⟩, (Except.ok.inj h).symm⟩
        · rintro ⟨⟨first, later⟩, rfl⟩
          exact ⟨_, ⟨first, rfl⟩, _, ⟨later, rfl⟩, rfl⟩
  rw [all, RendersAll, ← List.forall_mem_map, map_fst_chunkNames]

/-- The chunks of all roots, with the warnings in their order; no chunks if one of
them is no text. -/
def chunks (g : Graph) : List Chunk × List Text :=
  (g.output.1.toOption.getD [], g.output.2)

theorem output_eq (g : Graph) : g.output.1 = (chunkNames g.roots).mapM g.namedResult :=
  (gives_rendered g []).1

theorem chunks_eq (renders : g.RendersAll) :
    g.chunks.1 = (chunkNames g.roots).map g.chunkOf := by
  rw [chunks, output_eq, mapM_namedResult_eq_ok_iff.mpr ⟨renders, rfl⟩]
  rfl

/-- There are chunks exactly if the format is known and all modules of all chunks
come to texts. -/
theorem generate_eq_ok_iff {format : Text} {made : List Chunk × List Text} :
    g.generate format = .ok made ↔ format ∈ formats ∧ g.RendersAll ∧ made = g.chunks := by
  have known : formats.contains format = true ↔ format ∈ formats := List.contains_iff_mem
  rw [← known, generate, chunks]
  by_cases h : formats.contains format = true
  · rw [if_pos h]
    have result := output_eq g
    generalize g.output = out at result ⊢
    obtain ⟨found, warnings⟩ := out
    cases found with
    | error bad =>
        refine iff_of_false (fun h => by cases h) fun ⟨_, renders, _⟩ => ?_
        rw [mapM_namedResult_eq_ok_iff.mpr ⟨renders, rfl⟩] at result
        cases result
    | ok chunks =>
        have renders := (mapM_namedResult_eq_ok_iff.mp result.symm).1
        refine ⟨fun made => ⟨h, renders, (Except.ok.inj made).symm⟩, fun ⟨_, _, made⟩ => ?_⟩
        rw [made]
        rfl
  · rw [if_neg h]
    exact iff_of_false (fun h => by cases h) fun made => h made.1

theorem exists_root_of_mem_chunks (renders : g.RendersAll) {chunk : Chunk}
    (h : chunk ∈ g.chunks.1) :
    ∃ root ∈ g.roots, chunk.code = g.chunkText (chunkNames g.roots) root := by
  rw [chunks_eq renders] at h
  obtain ⟨⟨root, fileName⟩, mem, rfl⟩ := List.mem_map.mp h
  refine ⟨root, ?_, rfl⟩
  rw [← map_fst_chunkNames g.roots]
  exact List.mem_map_of_mem mem

end Graph

end Link

end Playground
