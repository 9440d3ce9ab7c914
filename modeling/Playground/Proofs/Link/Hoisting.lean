import Playground.Proofs.Link.Rebindings
import Playground.Proofs.Link.Reworking
import Playground.Proofs.Source.Statements

/-!
# Declarations stand where the imports stood

An import binds its names before anything else of the module is run, wherever it stands.
The declarations in its place do so only from there on. In a chunk the statements of a
module stay in their order. So the declarations come first in what is left of the module
exactly if the imports did in its source: but for other imports from modules of the chunk,
nothing that leaves something stands in front of one that needs declarations.

Imports from outside are another matter. They are gathered at the top of the chunk.
-/

namespace Playground.Link

open Source

/-- A statement is an import from a module of the chunk. -/
def Module.Rebinds (m : Module) (s : Span) : Prop :=
  ∃ i ∈ m.imports, i.target ≠ none ∧ i.span = s

instance (m : Module) (s : Span) : Decidable (m.Rebinds s) :=
  inferInstanceAs (Decidable (∃ i ∈ m.imports, i.target ≠ none ∧ i.span = s))

theorem Text.join_ne_nil {sep t : Text} {ts : List Text} (some : t ∈ ts) (proper : t ≠ []) :
    Text.join sep ts ≠ [] := by
  intro none
  have inside : t <:+: Text.join sep ts := Text.infix_join_of_mem some
  rw [none] at inside
  exact proper (List.infix_nil.mp inside)

/-- Of two things that an order does not have the other way around, the first one comes first. -/
theorem pairwise_of_not_swapped {α : Type} {R S : α → α → Prop} {l : List α} {a b : α}
    (related : l.Pairwise R) (ordered : l.Pairwise S) (ha : a ∈ l) (hb : b ∈ l) (ne : a ≠ b)
    (not : ¬ S b a) : R a b := by
  have both : l.Pairwise fun a b => (¬ S b a → R a b) ∧ (¬ S a b → R b a) :=
    (related.and ordered).imp fun ⟨r, s⟩ => ⟨fun _ => r, fun not => absurd s not⟩
  have : Std.Symm fun a b => (¬ S b a → R a b) ∧ (¬ S a b → R b a) := ⟨fun _ _ h => h.symm⟩
  exact (both.forall ha hb ne).1 not

namespace Graph

variable {hooks : Hooks} {budget : Nat} {input root : Text} {g : Graph} {m : Module} {o : Outline}
  {names : List (Text × Text)} {isRoot : Bool} {i : LinkedImport} {e : Edit}
  {statements : List (Item × Span)}

/-! ## What is left of a statement -/

/-- What is left of a statement in a chunk. -/
def leftOf (g : Graph) (names : List (Text × Text)) (isRoot : Bool) (m : Module) (s : Span) : Text :=
  Edit.reworked m.source (Edit.inOrder (g.edits names isRoot m)) s

/-- The declarations for imports come first: in front of them there is nothing left but others. -/
def Hoisted (g : Graph) (names : List (Text × Text)) (isRoot : Bool) (m : Module)
    (spans : List Span) : Prop :=
  spans.Pairwise fun a b => m.Rebinds b → g.leftOf names isRoot m b ≠ [] →
    m.Rebinds a ∨ g.leftOf names isRoot m a = []

instance (g : Graph) (names : List (Text × Text)) (isRoot : Bool) (m : Module)
    (spans : List Span) : Decidable (g.Hoisted names isRoot m spans) :=
  inferInstanceAs (Decidable (spans.Pairwise _))

theorem importText_eq_nil_iff : g.importText i = [] ↔ g.rebound i = [] := by
  rw [importText_eq]
  constructor
  · intro none
    by_contra some
    obtain ⟨u, mem⟩ := List.exists_mem_of_ne_nil _ some
    exact Text.join_ne_nil (List.mem_map_of_mem mem) (List.cons_ne_nil _ _) none
  · intro none
    rw [none]
    rfl

theorem target_ne_none_of_rebound (some : g.rebound i ≠ []) : i.target ≠ none := by
  intro none
  refine some ?_
  unfold rebound LinkedImport.inner
  rw [none]
  rfl

theorem IsRead.leftOf_eq (read : IsRead hooks m o) (clear : m.Clear)
    (mem : e ∈ g.edits names isRoot m) : g.leftOf names isRoot m e.span = e.replacement := by
  have perm := Edit.inOrder_perm (g.edits names isRoot m)
  refine Edit.reworked_eq ?_ (fun f there => ?_) (perm.mem_iff.mpr mem)
  · exact (perm.pairwise_iff fun h => h.symm).mpr (read.apart_edits clear names isRoot)
  · exact (read.within_of_mem_edits (perm.mem_iff.mp there)).proper

theorem IsRead.leftOf_import (read : IsRead hooks m o) (clear : m.Clear) (mem : i ∈ m.imports) :
    g.leftOf names isRoot m i.span = g.importText i :=
  read.leftOf_eq (e := ⟨i.span, g.importText i⟩) clear (mem_edits_iff.mpr (.inl ⟨i, mem, rfl⟩))

/-! ## Where statements stand -/

section

variable {start stop : Nat} {new : List ImportSite}

/-- What is replaced lies in statements. -/
theorem IsRead.exists_holds (read : IsRead hooks m o) (items : statements.map Prod.fst = o.items)
    (row : Row m.source.toCharsD start statements new stop) (sites : o.sites ⊆ new)
    (mem : e ∈ g.edits names isRoot m) :
    ∃ s ∈ statements.map Prod.snd, s.Holds e.span := by
  rcases List.mem_append.mp ((map_span_edits_sublist names isRoot m).subset
    (List.mem_map_of_mem mem)) with h | h
  · obtain ⟨item, hitem, there⟩ := List.mem_filterMap.mp (read.stretches_perm.mem_iff.mp h)
    rw [← items] at hitem
    obtain ⟨statement, hs, rfl⟩ := List.mem_map.mp hitem
    exact ⟨statement.2, List.mem_map_of_mem hs, row.stretches statement hs e.span there⟩
  · obtain ⟨site, hsite, same⟩ := List.mem_map.mp (read.sites_sublist.subset h)
    obtain ⟨statement, hs, holds⟩ := row.literals site (sites hsite)
    exact ⟨statement.2, List.mem_map_of_mem hs, same ▸ holds⟩

theorem IsRead.span_mem (read : IsRead hooks m o) (items : statements.map Prod.fst = o.items)
    (row : Row m.source.toCharsD start statements new stop) (mem : i ∈ m.imports) :
    i.span ∈ statements.map Prod.snd := by
  have imports : m.imports.map LinkedImport.span = o.items.flatMap fun item =>
      (Module.importsOf (resolveIn hooks m.id) item).map LinkedImport.span :=
    read.lift (F := fun n => n.imports.map LinkedImport.span = _)
      fun _ => Module.map_span_imports_ofOutline
  obtain ⟨item, hitem, there⟩ := List.mem_flatMap.mp
    (imports ▸ List.mem_map_of_mem (f := LinkedImport.span) mem)
  rw [← items] at hitem
  obtain ⟨⟨item, s⟩, hs, rfl⟩ := List.mem_map.mp hitem
  cases item with
  | importing found =>
      rw [List.mem_singleton.mp there]
      exact row.whole _ hs found.span rfl ▸ List.mem_map_of_mem hs
  | exporting | other => cases there

end

/-- The declarations for the imports of a module stand where the imports stood, and all other
statements where they stood. -/
structure InPlace (g : Graph) (names : List (Text × Text)) (root : Text) (m : Module)
    (spans : List Span) : Prop where
  /-- What is left of the statements comes in their order, with what stands between them. -/
  rendered : ∀ externals, Gives (g.renderModule names (m.id = root) m externals).run
    (.ok (Edit.substituted m.source (g.leftOf names (m.id = root) m) 0 spans,
      m.imports.foldl Externals.gather externals))
  imports : ∀ i ∈ m.imports, i.span ∈ spans ∧ g.leftOf names (m.id = root) m i.span =
    Text.join (text "\n") ((g.rebound i).map g.lineOf)
  /-- The declarations come first exactly if the imports do that need any. -/
  hoisted_iff : g.Hoisted names (m.id = root) m spans ↔
    ∀ i ∈ m.imports, g.rebound i ≠ [] → ∀ s ∈ spans, s.stop ≤ i.span.start →
      m.Rebinds s ∨ g.leftOf names (m.id = root) m s = []

/-- In a module whose literals are in no one's way, what is left of the statements stands in
their order. -/
theorem stays_in_place (built : build hooks budget input = .ok g) (mem : m ∈ g.modules)
    (clear : m.Clear) (names : List (Text × Text)) (root : Text) :
    ∃ statements, statements? m.source.toCharsD = some statements ∧
      Stand m.source.toCharsD statements ∧
      g.InPlace names root m (statements.map Prod.snd) := by
  have w := wellFormed_build built
  obtain ⟨o, read⟩ := w.read m mem
  obtain ⟨statements, known, items, stand, start, stop, new, row, sites⟩ :=
    statements_of_outline read.outline
  have perm := Edit.inOrder_perm (g.edits names (m.id = root) m)
  have proper (e : Edit) (there : e ∈ Edit.inOrder (g.edits names (m.id = root) m)) :
      e.span.start < e.span.stop := (read.within_of_mem_edits (perm.mem_iff.mp there)).proper
  refine ⟨statements, known, stand, ?_⟩
  constructor
  case rendered =>
    intro externals
    have body := w.body_eq_ok mem clear names root
    have ordered : Edit.Ordered (Edit.inOrder (g.edits names (m.id = root) m)) :=
      Edit.inOrder_ordered (fun e he => (read.within_of_mem_edits he).proper)
        (read.apart_edits clear names _)
    have held : ∀ e ∈ Edit.inOrder (g.edits names (m.id = root) m),
        ∃ s ∈ statements.map Prod.snd, s.Holds e.span :=
      fun e he => read.exists_holds items row sites (perm.mem_iff.mp he)
    rw [Edit.weave_eq_substituted ordered proper stand.ordered
      (fun s hs => ⟨Nat.zero_le _, stand.proper s hs⟩) held] at body
    have gives := gives_renderModule g names root m externals
    rwa [body] at gives
  case imports =>
    intro i hi
    rw [← importText_eq]
    exact ⟨read.span_mem items row hi, read.leftOf_import clear hi⟩
  case hoisted_iff =>
    constructor
    · intro hoisted i hi some s hs before
      have there := read.span_mem items row hi
      have wide : i.span.start < i.span.stop :=
        proper ⟨i.span, g.importText i⟩ (perm.mem_iff.mpr (mem_edits_iff.mpr (.inl ⟨i, hi, rfl⟩)))
      have narrow := stand.proper s hs
      have ne : s ≠ i.span := by
        rintro rfl
        omega
      refine pairwise_of_not_swapped hoisted stand.ordered hs there ne (by omega)
        ⟨i, hi, target_ne_none_of_rebound some, rfl⟩ ?_
      rw [read.leftOf_import clear hi]
      exact mt importText_eq_nil_iff.mp some
    · intro first
      refine stand.ordered.imp_of_mem ?_
      rintro a - ha - before ⟨i, hi, inner, rfl⟩ some
      rw [read.leftOf_import clear hi] at some
      exact first i hi (mt importText_eq_nil_iff.mpr some) a ha before

/-- Imports come first, one of them from outside. -/
def leading : List Artifact :=
  [⟨text "input.js", text ("import \x7b a as b \x7d from \"./a\";\n" ++
      "import x from \"ext\";\nimport \x7b c as d \x7d from \"./c\";\n" ++
      "export const z = b + d + x;\n")⟩,
    ⟨text "a.js", text "export const a = 1;\n"⟩,
    ⟨text "c.js", text "export const c = 2;\n"⟩]

theorem stays_in_place_leading : ∃ g, ofModules leading (text "input.js") = .ok g ∧
    ∃ m ∈ g.modules, m.id = g.entry ∧ ∃ spans,
      g.InPlace (chunkNames g.roots) g.entry m spans ∧
      spans.map (g.leftOf (chunkNames g.roots) (m.id = g.entry) m) =
        [text "const b = a;", [], text "const d = c;", text "export const z = b + d + x;"] ∧
      g.Hoisted (chunkNames g.roots) (m.id = g.entry) m spans := by
  have run : (ofModules leading (text "input.js")).toOption.map (fun g : Graph =>
      decide (∃ m ∈ g.modules, (m.id = g.entry ∧ m.Clear) ∧
        ∀ statements ∈ statements? m.source.toCharsD,
          (statements.map Prod.snd).map (g.leftOf (chunkNames g.roots) (m.id = g.entry) m) =
            [text "const b = a;", [], text "const d = c;", text "export const z = b + d + x;"] ∧
          g.Hoisted (chunkNames g.roots) (m.id = g.entry) m (statements.map Prod.snd))) =
      some true := by
    decide +kernel
  obtain ⟨g, built, run⟩ := Except.map_toOption_eq_some_iff.mp run
  obtain ⟨m, hm, ⟨own, clear⟩, evaluated⟩ := of_decide_eq_true run
  obtain ⟨statements, known, -, inPlace⟩ := @stays_in_place (Hooks.ofModules leading)
    (budgetFor (leading.map Artifact.code)) (text "input.js") g m built hm clear
      (chunkNames g.roots) g.entry
  obtain ⟨left, hoisted⟩ := evaluated statements known
  exact ⟨g, built, m, hm, own, _, inPlace, left, hoisted⟩

/-- The import comes last. -/
def trailing : List Artifact :=
  [⟨text "input.js", text "export const z = x;\nimport \x7b y as x \x7d from \"./a\";\n"⟩,
    ⟨text "a.js", text "export const y = 1;\n"⟩]

/-- The declaration comes last too, behind the statement that needs it. -/
theorem declares_late : ∃ g, ofModules trailing (text "input.js") = .ok g ∧
    ∃ m ∈ g.modules, m.id = g.entry ∧
      (statements? m.source.toCharsD).map (List.map Prod.snd) = some [⟨0, 19⟩, ⟨20, 49⟩] ∧
      m.Rebinds ⟨20, 49⟩ ∧ ¬ m.Rebinds ⟨0, 19⟩ ∧
      ¬ g.Hoisted (chunkNames g.roots) (m.id = g.entry) m [⟨0, 19⟩, ⟨20, 49⟩] ∧
      Edit.applyAll (g.edits (chunkNames g.roots) (m.id = g.entry) m) m.source =
        .ok (text "export const z = x;\nconst x = y;\n") := by
  have run : (ofModules trailing (text "input.js")).toOption.map (fun g : Graph =>
      decide (∃ m ∈ g.modules, m.id = g.entry ∧
        (statements? m.source.toCharsD).map (List.map Prod.snd) = some [⟨0, 19⟩, ⟨20, 49⟩] ∧
        m.Rebinds ⟨20, 49⟩ ∧ ¬ m.Rebinds ⟨0, 19⟩ ∧
        ¬ g.Hoisted (chunkNames g.roots) (m.id = g.entry) m [⟨0, 19⟩, ⟨20, 49⟩] ∧
        (Edit.applyAll (g.edits (chunkNames g.roots) (m.id = g.entry) m) m.source).toOption =
          some (text "export const z = x;\nconst x = y;\n"))) = some true := by
    decide +kernel
  obtain ⟨g, built, run⟩ := Except.map_toOption_eq_some_iff.mp run
  obtain ⟨m, hm, own, known, rebinds, other, late, body⟩ := of_decide_eq_true run
  exact ⟨g, built, m, hm, own, known, rebinds, other, late, Except.toOption_eq_some_iff.mp body⟩

end Graph

end Playground.Link
