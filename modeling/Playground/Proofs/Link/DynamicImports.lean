import Mathlib.Data.List.Pairwise
import Playground.Proofs.Link.Splitting

/-!
# Which dynamic imports are linked

All dynamic imports of a literal are kept while a source is read, at whatever depth
they stand. Of these a module knows the ones without a comment in front of the
literal: where the resolver accepts the literal, the target is needed later, it has a
chunk of its own, and in every chunk that shows the module the literal names that
chunk. This holds of every module whose literals are in no one's way.

A comment in front of the literal hides it, and nothing tells so. As the literals of
different dynamic imports are apart, none of the others is replaced in its place
either, so it stays as it is, unless it goes with a whole statement or with what
stands in front of an export.
-/

namespace Playground.Link.Graph

open Source

variable {hooks : Hooks} {g : Graph} {m : Module} {o : Outline} {budget : Nat}
  {input format target root : Text} {call other : ImportCall} {names : List (Text × Text)}

/-! ## What a module knows -/

theorem IsRead.mem_sites_iff (read : IsRead hooks m o) {site : LinkedSite} : site ∈ m.sites ↔
    ∃ call ∈ o.calls, call.commented = false ∧ call.literal.span = site.span ∧
      resolveIn hooks m.id call.literal.source = some site.target := by
  have sites : m.sites = o.sites.filterMap fun site =>
      (resolveIn hooks m.id site.source).map fun t => ⟨site.span, t⟩ :=
    read.lift (F := fun n => n.sites = _) fun _ => Module.sites_ofOutline
  rw [sites, List.mem_filterMap]
  constructor
  · rintro ⟨_, mem, made⟩
    obtain ⟨call, known, plain, rfl⟩ := Source.mem_sites_iff.mp mem
    obtain ⟨target, found, rfl⟩ := Option.map_eq_some_iff.mp made
    exact ⟨call, known, plain, rfl, found⟩
  · rintro ⟨call, known, plain, span, found⟩
    refine ⟨call.literal, Source.mem_sites_iff.mpr ⟨call, known, plain, rfl⟩, ?_⟩
    rw [found, span]
    rfl

/-- A module needs later what its dynamic imports without a comment are resolved to. -/
theorem IsRead.mem_dynamicDeps_iff_calls (read : IsRead hooks m o) : target ∈ m.dynamicDeps ↔
    ∃ call ∈ o.calls, call.commented = false ∧
      resolveIn hooks m.id call.literal.source = some target := by
  rw [read.mem_dynamicDeps_iff]
  simp only [read.mem_sites_iff]
  constructor
  · rintro ⟨site, ⟨call, known, plain, -, found⟩, rfl⟩
    exact ⟨call, known, plain, found⟩
  · rintro ⟨call, known, plain, found⟩
    exact ⟨⟨call.literal.span, target⟩, ⟨call, known, plain, rfl, found⟩, rfl⟩

/-! ## What is replaced -/

theorem IsRead.laid_calls (read : IsRead hooks m o) :
    Laid 0 m.source.length o.items (o.calls.map ImportCall.literal) := by
  obtain ⟨_, -, laid⟩ := leads_of_outline read.outline
  rwa [Text.toCharsD, List.length_map] at laid

/-- The literals of different dynamic imports are apart. -/
theorem IsRead.apart_calls (read : IsRead hooks m o) (mem : call ∈ o.calls)
    (mem' : other ∈ o.calls) (ne : call ≠ other) :
    call.literal.span.Apart other.literal.span := by
  have symm : Std.Symm fun a b : ImportCall => a.literal.span.Apart b.literal.span :=
    ⟨fun _ _ h => h.symm⟩
  exact (List.pairwise_map.mp read.laid_calls.found.apart).forall mem mem' ne

/-- The literal of a dynamic import gives way to the file of its target. -/
def naming (file : Text → Text) (call : ImportCall) (target : Text) : Edit :=
  ⟨call.literal.span, Json.renderString true (text "./" ++ file target)⟩

/-- Edits let the dynamic imports of a module name the files of their targets, except where a comment
hides the literal. There the literal is kept, unless a statement's stretch goes with it. -/
structure NamesTargets (hooks : Hooks) (file : Text → Text) (m : Module) (o : Outline)
    (edits : List Edit) : Prop where
  plain : ∀ call ∈ o.calls, call.commented = false →
    ∀ target ∈ resolveIn hooks m.id call.literal.source, naming file call target ∈ edits
  hidden : ∀ call ∈ o.calls, call.commented = true → ∀ e ∈ edits,
    e.span.Apart call.literal.span ∨ e.span ∈ m.stretches ∧ e.span.Holds call.literal.span

theorem IsRead.namesTargets (read : IsRead hooks m o) (names : List (Text × Text))
    (isRoot : Bool) : NamesTargets hooks (fileOf names) m o (g.edits names isRoot m) where
  plain call mem plain target found := by
    have site : ⟨call.literal.span, target⟩ ∈ m.sites :=
      read.mem_sites_iff.mpr ⟨call, mem, plain, rfl, found⟩
    have replaced : naming (fileOf names) call target ∈ siteEdits names m :=
      List.mem_map_of_mem site
    exact mem_edits_iff.mpr (.inr (.inr (.inr (.inr replaced))))
  hidden call mem hidden e edit := by
    rcases List.mem_append.mp ((map_span_edits_sublist names isRoot m).subset
      (List.mem_map_of_mem edit)) with stretch | literal
    · obtain ⟨item, there, same⟩ := List.mem_filterMap.mp (read.stretches_perm.mem_iff.mp stretch)
      rcases read.laid_calls.spares item there call.literal (List.mem_map_of_mem mem) e.span same
        with apart | ⟨holds, -⟩
      · exact .inl apart.symm
      · exact .inr ⟨stretch, holds⟩
    · obtain ⟨site, known, same⟩ := List.mem_map.mp literal
      obtain ⟨other, mem', plain, span, -⟩ := read.mem_sites_iff.mp known
      have ne : other ≠ call := by
        rintro rfl
        rw [hidden] at plain
        cases plain
      rw [← same, ← span]
      exact .inl (read.apart_calls mem' mem ne)

/-! ## Chunks -/

/-- In the text of a module stretches are replaced, one behind the other, and its dynamic imports name
the files of their targets. -/
def ShowsTargets (hooks : Hooks) (file : Text → Text) (m : Module) (t : Text) : Prop :=
  ∃ o edits, outline? m.source.toCharsD = some o ∧ Edit.Ordered edits ∧
    (∀ e ∈ edits, e.span.Within 0 m.source.length) ∧ t = Edit.weave m.source 0 edits ∧
    NamesTargets hooks file m o edits

/-- The code of a root's chunk is what the texts of its modules come to, and in each of them whose
literals are in no one's way the dynamic imports name the files of their targets. -/
def ChunkShowsTargets (hooks : Hooks) (g : Graph) (file : Text → Text) (root : Text)
    (chunk : Chunk) : Prop :=
  ∃ texts, List.Forall₂ (fun m t => m.Clear → ShowsTargets hooks file m t) (g.shown root) texts ∧
    chunk.code = assembled (g.externals root) texts

theorem WellFormed.showsTargets (w : g.WellFormed hooks) (mem : m ∈ g.modules) (clear : m.Clear)
    (names : List (Text × Text)) (root : Text) :
    ShowsTargets hooks (fileOf names) m (g.bodyText names root m) := by
  obtain ⟨o, read⟩ := w.read m mem
  obtain ⟨edits, perm, ordered, within, woven⟩ := w.woven_body mem clear names root
  have named := read.namesTargets (g := g) names (m.id = root)
  refine ⟨o, edits, read.outline, ordered, within, woven, ⟨?_, ?_⟩⟩
  · exact fun call known plain target found =>
      perm.mem_iff.mpr (named.plain call known plain target found)
  · exact fun call known hidden e edit => named.hidden call known hidden e (perm.mem_iff.mp edit)

/-- Every dynamic import of a literal is linked if the resolver accepts the literal and no comment stands
in front of it, and if one stands there it is not. -/
theorem links_dynamic_imports (built : build hooks budget input = .ok g) (known : format ∈ formats) :
    ∃ file : Text → Text,
      (∀ m ∈ g.modules, ∃ o, outline? m.source.toCharsD = some o ∧
        (∀ call ∈ o.calls, call.Stands m.source.toCharsD) ∧
        ∀ target, target ∈ m.dynamicDeps ↔ ∃ call ∈ o.calls, call.commented = false ∧
          resolveIn hooks m.id call.literal.source = some target) ∧
      (∀ m ∈ g.modules, ∀ target ∈ m.dynamicDeps, target ∈ g.roots) ∧
      (∀ chunks warnings, g.generate format = .ok (chunks, warnings) →
        List.Forall₂ (g.IsChunkOf file) g.roots chunks ∧
        List.Forall₂ (ChunkShowsTargets hooks g file) g.roots chunks) ∧
      ((∀ m ∈ g.modules, m.Clear) → ∃ made, g.generate format = .ok made) := by
  have w := wellFormed_build built
  refine ⟨fileOf (chunkNames g.roots), fun m mem => ?_, fun m mem target later => ?_, ?_, ?_⟩
  · obtain ⟨o, read⟩ := w.read m mem
    exact ⟨o, read.outline, stands_of_outline read.outline,
      fun _ => read.mem_dynamicDeps_iff_calls⟩
  · exact mem_roots_iff.mpr (.inr ⟨m, mem, later⟩)
  · intro chunks warnings made
    obtain ⟨-, renders, made⟩ := generate_eq_ok_iff.mp made
    rw [show chunks = g.chunks.1 from congrArg Prod.fst made]
    refine ⟨chunks_forall₂ renders fun root _ => ⟨rfl, rfl, rfl⟩, ?_⟩
    refine chunks_forall₂ renders fun root _ => ⟨(g.shown root).map _, ?_, rfl⟩
    refine List.forall₂_map_right_iff.mpr (List.forall₂_same.mpr fun m shown clear => ?_)
    exact w.showsTargets ((mem_shown_iff w).mp shown).1 clear _ root
  · exact fun clear => ⟨_, generate_eq_ok_iff.mpr ⟨known, w.rendersAll clear, rfl⟩⟩

/-- Dynamic imports at some depth, one of them with a comment in front of its literal and one with a
comment behind it. -/
def nested : List Artifact :=
  [⟨text "input.js", text ("const f = () => [import(\"./a\"), \x7b g() \x7b " ++
      "return import(/* c */ \"./b\"); \x7d \x7d];\n")⟩,
    ⟨text "a.js", text "export const a = (import(\"./b\" /* d */));\n"⟩,
    ⟨text "b.js", text "export const b = 1;\n"⟩]

theorem links_nested_imports : ∃ g file chunks warnings,
    ofModules nested (text "input.js") = .ok g ∧ g.generate (text "es") = .ok (chunks, warnings) ∧
    List.Forall₂ (g.IsChunkOf file) g.roots chunks ∧
    List.Forall₂ (ChunkShowsTargets (Hooks.ofModules nested) g file) g.roots chunks ∧
    (g.modules.map fun m => (m.id, m.dynamicDeps)) = [(text "input.js", [text "./a.js"]),
      (text "./a.js", [text "./b.js"]), (text "./b.js", [])] ∧
    chunks = [⟨text "input.js", text ("const f = () => [import(\"./a.js\"), \x7b g() \x7b " ++
        "return import(/* c */ \"./b\"); \x7d \x7d];\n"), true, false⟩,
      ⟨text "a.js", text "export const a = (import(\"./b.js\" /* d */));\n", false, true⟩,
      ⟨text "b.js", text "export const b = 1;\n", false, true⟩] := by
  have run : (ofModules nested (text "input.js")).toOption.map (fun g : Graph =>
      (decide ((∀ m ∈ g.modules, m.Clear) ∧
        (g.modules.map fun m => (m.id, m.dynamicDeps)) = [(text "input.js", [text "./a.js"]),
          (text "./a.js", [text "./b.js"]), (text "./b.js", [])]), g.chunks.1)) = some (true,
        [⟨text "input.js", text ("const f = () => [import(\"./a.js\"), \x7b g() \x7b " ++
            "return import(/* c */ \"./b\"); \x7d \x7d];\n"), true, false⟩,
          ⟨text "a.js", text "export const a = (import(\"./b.js\" /* d */));\n", false, true⟩,
          ⟨text "b.js", text "export const b = 1;\n", false, true⟩]) := by decide +kernel
  obtain ⟨g, built, run⟩ := Except.map_toOption_eq_some_iff.mp run
  obtain ⟨facts, result⟩ := Prod.mk.inj run
  obtain ⟨clear, later⟩ := of_decide_eq_true facts
  have known : text "es" ∈ formats := by decide
  obtain ⟨file, -, -, linked, succeeds⟩ := @links_dynamic_imports (Hooks.ofModules nested) g
    (budgetFor (nested.map Artifact.code)) (text "input.js") (text "es") built known
  obtain ⟨⟨chunks, warnings⟩, made⟩ := succeeds clear
  obtain ⟨named, shows⟩ := linked chunks warnings made
  refine ⟨g, file, chunks, warnings, built, made, named, shows, later, ?_⟩
  exact (congrArg Prod.fst (generate_eq_ok_iff.mp made).2.2).trans result

/-- A dynamic import with a comment in front of its literal. -/
def hidden : List Artifact :=
  [⟨text "input.js", text "import(/* c */ './d');\n"⟩, ⟨text "d.js", text "export const x = 1;\n"⟩]

/-- The resolver accepts the literal, but the module is not loaded, and the import stays as it is. -/
theorem passes_over_hidden_import :
    (outline? (text "import(/* c */ './d');\n").toCharsD).map Outline.calls =
      some [⟨⟨⟨15, 20⟩, text "./d"⟩, true⟩] ∧
    resolveIn (Hooks.ofModules hidden) (text "input.js") (text "./d") = some (text "./d.js") ∧
    ((ofModules hidden (text "input.js")).toOption.map fun g =>
      (g.modules.map fun m => (m.id, m.dynamicDeps))) = some [(text "input.js", [])] ∧
    ((ofModules hidden (text "input.js")).toOption.bind fun g =>
      (g.generate (text "es")).toOption) =
      some ([⟨text "input.js", text "import(/* c */ './d');\n", true, false⟩], []) := by
  refine ⟨?_, ?_, ?_, ?_⟩ <;> decide +kernel

end Playground.Link.Graph
