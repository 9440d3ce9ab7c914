import Playground.Proofs.Link.Texts

/-!
# How a graph is split into chunks

Each root has one chunk, the entry's the first, and no two chunks have the same
file name. So what names the chunk of a module names no other one. In a chunk the
source of each module is shown with all stretches replaced, and the literal of each
dynamic import is one of them: it names the chunk of its target.

This needs that the literal is not inside another stretch. If it is, then the
outer stretch is replaced last, in octets in which its end is no longer where it
was, so the cut goes too far or not far enough. Where it goes through the octets
of a character, there are no chunks at all.
-/

namespace Playground.Link.Graph

open Source

variable {hooks : Hooks} {g : Graph} {m : Module} {budget : Nat} {input format target : Text}

/-! ## Roots -/

theorem nodup_roots (g : Graph) : g.roots.Nodup := by
  refine List.foldlRecOn g.modules _ (List.nodup_singleton g.entry) fun roots h m _ => ?_
  exact List.foldlRecOn m.dynamicDeps _ h fun _ h _ _ => Ordered.nodup_add h

theorem head?_roots (g : Graph) : g.roots.head? = some g.entry := by
  have add (d : Text) {roots : List Text} (h : roots.head? = some g.entry) :
      (Ordered.add d roots).head? = some g.entry := by
    unfold Ordered.add
    split
    · exact h
    · rw [List.head?_append, h]
      rfl
  refine List.foldlRecOn (motive := fun roots : List Text => roots.head? = some g.entry)
    g.modules _ rfl fun roots h m _ => ?_
  exact List.foldlRecOn (motive := fun roots : List Text => roots.head? = some g.entry)
    m.dynamicDeps _ h fun _ h d _ => add d h

theorem IsRead.mem_dynamicDeps_iff {o : Outline} (read : IsRead hooks m o) :
    target ∈ m.dynamicDeps ↔ ∃ site ∈ m.sites, site.target = target := by
  refine read.lift (F := fun n => target ∈ n.dynamicDeps ↔ ∃ site ∈ n.sites, site.target = target)
    fun count => ?_
  rw [Module.dynamicDeps_ofOutline, Module.sites_ofOutline, Ordered.mem_firsts_iff]
  simp [List.mem_filterMap]

/-! ## Chunks -/

/-- A graph is split: every module that is imported dynamically is a root, the entry
is the first one, and the chunk of each root has its own file name. -/
structure Splits (g : Graph) (file : Text → Text) : Prop where
  entry : g.roots.head? = some g.entry
  roots : ∀ root, root ∈ g.roots ↔
    root = g.entry ∨ ∃ m ∈ g.modules, ∃ site ∈ m.sites, site.target = root
  once : g.roots.Nodup
  named : (g.roots.map file).Nodup

/-- A chunk is put out for a root. -/
structure IsChunkOf (g : Graph) (file : Text → Text) (root : Text) (chunk : Chunk) : Prop where
  fileName : chunk.fileName = file root
  isEntry : chunk.isEntry = decide (root = g.entry)
  isDynamicEntry : chunk.isDynamicEntry = decide (root ≠ g.entry)

/-- A text is the source of a module with stretches replaced that are one behind the
other, and the literals of dynamic imports are replaced by the files of their targets. -/
def Links (file : Text → Text) (m : Module) (t : Text) : Prop :=
  ∃ edits : List Edit, Edit.Ordered edits ∧ (∀ e ∈ edits, e.span.Within 0 m.source.length) ∧
    t = Edit.weave m.source 0 edits ∧ ∀ site ∈ m.sites,
      ⟨site.span, Json.renderString true (text "./" ++ file site.target)⟩ ∈ edits

/-- The code that some imports from outside and the texts of some modules come to. -/
def assembled (externals : Externals) (texts : List Text) : Text :=
  let header := externals.render
  let bodies := (texts.filter fun t => !t.all CodePoint.isBlank).map trimLines
  Text.join (text "\n\n") (if header.isEmpty then bodies else header :: bodies) ++ text "\n"

/-- The code of a root's chunk is what the texts of its modules come to, and they name
the files of what they import dynamically. -/
def IsLinked (g : Graph) (file : Text → Text) (root : Text) (chunk : Chunk) : Prop :=
  ∃ texts, List.Forall₂ (Links file) (g.shown root) texts ∧
    chunk.code = assembled (g.externals root) texts

theorem WellFormed.splits (w : g.WellFormed hooks) : g.Splits (fileOf (chunkNames g.roots)) where
  entry := head?_roots g
  roots root := by
    rw [mem_roots_iff]
    refine or_congr_right (exists_congr fun m => and_congr_right fun mem => ?_)
    obtain ⟨o, read⟩ := w.read m mem
    exact read.mem_dynamicDeps_iff
  once := nodup_roots g
  named := by
    have files := congrArg (List.map Prod.snd) (chunkNames_eq (nodup_roots g))
    rw [List.map_map] at files
    exact files ▸ nodup_map_snd_chunkNames g.roots

theorem chunks_forall₂ (renders : g.RendersAll) {R : Text → Chunk → Prop}
    (h : ∀ root ∈ g.roots, R root (g.chunkOf (root, fileOf (chunkNames g.roots) root))) :
    List.Forall₂ R g.roots g.chunks.1 := by
  rw [chunks_eq renders, chunkNames_eq (nodup_roots g), List.map_map]
  exact List.forall₂_map_right_iff.mpr (List.forall₂_same.mpr h)

/-- A module without a literal in the way comes to its source with its edits applied, one behind
the other. -/
theorem WellFormed.woven_body (w : g.WellFormed hooks) (mem : m ∈ g.modules) (clear : m.Clear)
    (names : List (Text × Text)) (root : Text) :
    ∃ edits : List Edit, edits.Perm (g.edits names (m.id = root) m) ∧ Edit.Ordered edits ∧
      (∀ e ∈ edits, e.span.Within 0 m.source.length) ∧
      g.bodyText names root m = Edit.weave m.source 0 edits := by
  obtain ⟨o, read⟩ := w.read m mem
  have within (e : Edit) (he : e ∈ g.edits names (m.id = root) m) :
      e.span.Within 0 m.source.length :=
    read.within_of_mem_edits he
  have perm := Edit.inOrder_perm (g.edits names (m.id = root) m)
  refine ⟨Edit.inOrder (g.edits names (m.id = root) m), perm, ?_, ?_, ?_⟩
  · exact Edit.inOrder_ordered (fun e he => (within e he).proper) (read.apart_edits clear names _)
  · exact fun e he => within e (perm.mem_iff.mp he)
  · exact bodyText_eq (w.body_eq_ok mem clear names root)

theorem WellFormed.links_body (w : g.WellFormed hooks) (mem : m ∈ g.modules) (clear : m.Clear)
    (names : List (Text × Text)) (root : Text) :
    Links (fileOf names) m (g.bodyText names root m) := by
  obtain ⟨edits, perm, ordered, within, woven⟩ := w.woven_body mem clear names root
  refine ⟨edits, ordered, within, woven, fun site hs => ?_⟩
  refine perm.mem_iff.mpr (mem_edits_iff.mpr ?_)
  exact .inr (.inr (.inr (.inr (List.mem_map_of_mem hs))))

theorem WellFormed.rendersAll (w : g.WellFormed hooks) (clear : ∀ m ∈ g.modules, m.Clear) :
    g.RendersAll := by
  intro root _ m shown
  have mem := ((mem_shown_iff w).mp shown).1
  have body := w.body_eq_ok mem (clear m mem) (chunkNames g.roots) root
  rw [bodyText_eq body, body]

/-- Whatever is put out, each root has its chunk, and unless literals of dynamic imports
are in the way of other stretches, chunks are put out, and dynamic imports name them. -/
theorem splits_and_links (built : build hooks budget input = .ok g) (known : format ∈ formats) :
    ∃ file : Text → Text, g.Splits file ∧
      (∀ chunks warnings, g.generate format = .ok (chunks, warnings) →
        List.Forall₂ (g.IsChunkOf file) g.roots chunks) ∧
      ((∀ m ∈ g.modules, m.Clear) → ∃ chunks warnings,
        g.generate format = .ok (chunks, warnings) ∧
          List.Forall₂ (g.IsLinked file) g.roots chunks) := by
  have w := wellFormed_build built
  refine ⟨fileOf (chunkNames g.roots), w.splits, fun chunks warnings made => ?_, fun clear => ?_⟩
  · obtain ⟨-, renders, made⟩ := generate_eq_ok_iff.mp made
    rw [show chunks = g.chunks.1 from congrArg Prod.fst made]
    exact chunks_forall₂ renders fun root _ => ⟨rfl, rfl, rfl⟩
  · have renders := w.rendersAll clear
    refine ⟨_, _, generate_eq_ok_iff.mpr ⟨known, renders, rfl⟩, ?_⟩
    refine chunks_forall₂ renders fun root _ => ⟨(g.shown root).map _, ?_, rfl⟩
    refine List.forall₂_map_right_iff.mpr (List.forall₂_same.mpr fun m shown => ?_)
    have mem := ((mem_shown_iff w).mp shown).1
    exact w.links_body mem (clear m mem) _ root

/-- Two modules with the same last part of their ids, both imported dynamically. -/
def namesakes : List Artifact :=
  [⟨text "input.js", text "import(\"./a/x\");\nimport(\"./b/x\");\n"⟩,
    ⟨text "a/x.js", text "export const x = 1;\n"⟩,
    ⟨text "b/x.js", text "export const x = 2;\n"⟩]

theorem splits_namesakes : ∃ g file chunks warnings,
    ofModules namesakes (text "input.js") = .ok g ∧ g.Splits file ∧
    g.generate (text "es") = .ok (chunks, warnings) ∧
    List.Forall₂ (g.IsChunkOf file) g.roots chunks ∧
    List.Forall₂ (g.IsLinked file) g.roots chunks ∧
    chunks = [⟨text "input.js", text "import(\"./x.js\");\nimport(\"./x-2.js\");\n", true, false⟩,
      ⟨text "x.js", text "export const x = 1;\n", false, true⟩,
      ⟨text "x-2.js", text "export const x = 2;\n", false, true⟩] := by
  have run : (ofModules namesakes (text "input.js")).toOption.map (fun g =>
      (decide (∀ m ∈ g.modules, m.Clear), g.chunks.1)) = some (true,
        [⟨text "input.js", text "import(\"./x.js\");\nimport(\"./x-2.js\");\n", true, false⟩,
          ⟨text "x.js", text "export const x = 1;\n", false, true⟩,
          ⟨text "x-2.js", text "export const x = 2;\n", false, true⟩]) := by decide +kernel
  obtain ⟨g, built, run⟩ := Option.map_eq_some_iff.mp run
  have built := Except.toOption_eq_some_iff.mp built
  obtain ⟨clear, result⟩ := Prod.mk.inj run
  have known : text "es" ∈ formats := by decide
  obtain ⟨file, splits, named, linked⟩ := @splits_and_links (Hooks.ofModules namesakes) g
    (budgetFor (namesakes.map Artifact.code)) (text "input.js") (text "es") built known
  obtain ⟨chunks, warnings, made, links⟩ := linked (of_decide_eq_true clear)
  refine ⟨g, file, chunks, warnings, built, splits, made, named _ _ made, links, ?_⟩
  exact (congrArg Prod.fst (generate_eq_ok_iff.mp made).2.2).trans result

/-- An exported class with a dynamic import in its decorator, in a module that is not the root. -/
def decorated : List Artifact :=
  [⟨text "input.js", text "import \"./a\";\n"⟩,
    ⟨text "a.js", text "@d(import(\"./component/x\"))\nexport class É \x7b\x7d\n"⟩,
    ⟨text "component/x.js", text "export const x = 1;\n"⟩]

/-- The literal is in front of what is exported, so the cut there ends inside a character, and
nothing is put out. -/
theorem refuses_decorated : ∃ g, ofModules decorated (text "input.js") = .ok g ∧
    g.roots = [text "input.js", text "./component/x.js"] ∧
    ∀ made, g.generate (text "es") ≠ .ok made := by
  have run : (ofModules decorated (text "input.js")).toOption.map (fun g =>
      (g.roots, (g.generate (text "es")).toOption)) =
        some ([text "input.js", text "./component/x.js"], none) := by decide +kernel
  obtain ⟨g, built, run⟩ := Option.map_eq_some_iff.mp run
  obtain ⟨roots, refused⟩ := Prod.mk.inj run
  refine ⟨g, Except.toOption_eq_some_iff.mp built, roots, fun made h => ?_⟩
  rw [Except.toOption_eq_some_iff.mpr h] at refused
  cases refused

end Playground.Link.Graph
