import Playground.Proofs.Bundle.Lookup
import Playground.Proofs.Link.Rendering

/-!
# How often a compiled module is inlined

The linker tells modules apart by their ids, and the resolver finds one compiled
module under many ids: with and without a dot in front, with empty parts, or, when
no path is the id's, under every id in which a path occurs. So a chunk holds no id
twice, but it may hold two ids of one compiled module, and then it holds the code
twice. A circle through the entry is enough, because the entry is asked for by its
plain name and by all others with a dot in front.

Where every id of a chunk has a compiled module of exactly that path, modules are
inlined once if no two of the ids are the same path, and only then.
-/

namespace Playground

namespace Link.Graph

variable {files : List Artifact} {g : Graph} {budget : Nat} {input root : Text}

/-- The modules of a chunk, in their order, have different ids, and each has the
code of the compiled module that is found for its id. If all ids are exactly the
path of some compiled module, then no compiled module is inlined twice if no two
of the ids are the same path, and only then. -/
theorem inlines_once_iff (built : build (Hooks.ofModules files) budget input = .ok g)
    (hroot : root ∈ g.roots) (warnings : List Text) :
    let order := ((g.staticOrder root).run warnings).1
    order.Nodup ∧
      (∀ name ∈ order, ∃ file ∈ files, Hooks.artifact? files name = some file ∧
        ∃ m ∈ g.modules, m.id = name ∧ m.source = file.code) ∧
      ((∀ name ∈ order, Hooks.HasExact files name) →
        ((order.map (Hooks.artifact? files)).Nodup ↔ (order.map Path.normalize).Nodup)) := by
  intro order
  have w := wellFormed_build built
  have horder : order = g.order root := (gives_staticOrder g root warnings).1
  have nodup : order.Nodup := horder ▸ nodup_order g root
  refine ⟨nodup, fun name mem => ?_, fun exact' => ?_⟩
  · have reach := mem_order_iff.mp (horder ▸ mem)
    obtain ⟨m, hm, rfl⟩ := List.mem_map.mp (w.mem_of_reaches (w.root_mem hroot) reach)
    obtain ⟨o, read⟩ := w.read m hm
    have load := read.load
    rw [Hooks.load_ofModules] at load
    obtain ⟨file, found, code⟩ := Option.map_eq_some_iff.mp load
    exact ⟨file, Hooks.mem_of_artifact? found, found, m, hm, rfl, code.symm⟩
  · rw [List.nodup_map_iff_inj_on nodup, List.nodup_map_iff_inj_on nodup]
    refine forall₂_congr fun x hx => forall₂_congr fun y hy => imp_congr_left ?_
    exact Hooks.artifact?_eq_iff (exact' x hx) (exact' y hy)

/-- Two modules in a row. -/
def row : List Artifact :=
  [⟨text "input.js", text "import \"./a\";\n"⟩, ⟨text "a.js", text "const x = 1;\n"⟩]

theorem inlines_once_in_row : ∃ g, ofModules row (text "input.js") = .ok g ∧
    (((g.staticOrder g.entry).run []).1.map (Hooks.artifact? row)).Nodup := by
  have run : (ofModules row (text "input.js")).toOption.map (fun g => g.order g.entry) =
      some [text "./a.js", text "input.js"] := by decide +kernel
  cases built : ofModules row (text "input.js") with
  | error e =>
      rw [built] at run
      cases run
  | ok g =>
      rw [built] at run
      have horder : ((g.staticOrder g.entry).run []).1 = [text "./a.js", text "input.js"] :=
        (gives_staticOrder g g.entry []).1.trans (Option.some.inj run)
      refine ⟨g, rfl, (((@inlines_once_iff row g (budgetFor (row.map Artifact.code))
        (text "input.js") g.entry built (mem_roots_iff.mpr (.inl rfl)) []).2.2 ?_).mpr ?_)⟩
      · rw [horder]
        intro name mem
        rcases List.mem_pair.mp mem with rfl | rfl
        · exact ⟨_, List.mem_cons_of_mem _ List.mem_cons_self, by decide⟩
        · exact ⟨_, List.mem_cons_self, by decide⟩
      · rw [horder]
        decide

/-- Two modules in a circle, one of them the entry. -/
def circle : List Artifact :=
  [⟨text "input.js", text "import \"./a\";\nconst x = 1;\n"⟩,
    ⟨text "a.js", text "import \"./input\";\n"⟩]

/-- In a circle the entry is inlined twice. -/
theorem inlines_entry_twice :
    (circle.map fun file => Path.normalize file.path).Nodup ∧
    ((ofModules circle (text "input.js")).toOption.map fun g =>
      (((g.staticOrder g.entry).run []).1, g.chunks.1.map Chunk.code)) =
      some ([text "./input.js", text "./a.js", text "input.js"],
        [text "const x = 1;\n\nconst x = 1;\n"]) ∧
    Hooks.artifact? circle (text "./input.js") = Hooks.artifact? circle (text "input.js") := by
  refine ⟨by decide, by decide +kernel, by decide⟩

end Link.Graph

end Playground
