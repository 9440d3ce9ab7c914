import Playground.Proofs.Link.Texts
import Playground.Proofs.Source.Keywords

/-!
# What remains of a module's text

A module that is not the root of a chunk loses its imports and exports there. What is
replaced lies in its source, and it is the stretch of a statement or the literal of
a dynamic import. If no two of these stretches meet, all parts of the source that they
spare stand in the text of the module as they were, one behind the other.

This is less than one would like in two ways. The stretch in front of an exported
class takes the decorators of the class with it, so they are lost. And a literal may
stand in the stretch of a statement. Then the two meet, and nothing is said of the text.
-/

namespace Playground.Link

open Source

/-- Some parts stand in a text, one behind the other. -/
def InOrder : List Text → Text → Prop
  | [], _ => True
  | part :: later, t => ∃ before after, t = before ++ part ++ after ∧ InOrder later after

/-- The parts of a source in some stretches. -/
def partsOf (source : Text) (kept : List Span) : List Text :=
  kept.map fun s => source.slice s.start s.stop

/-- Stretches one behind the other, apart from some others. -/
structure Spared (replaced kept : List Span) : Prop where
  proper : ∀ s ∈ kept, s.start ≤ s.stop
  ordered : kept.Pairwise fun s t => s.stop ≤ t.start
  apart : ∀ t ∈ replaced, ∀ s ∈ kept, t.Apart s

instance (a b : Span) : Decidable (a.Apart b) :=
  inferInstanceAs (Decidable (_ ∨ _))

instance (replaced kept : List Span) : Decidable (Spared replaced kept) :=
  decidable_of_iff ((∀ s ∈ kept, s.start ≤ s.stop) ∧
      (kept.Pairwise fun s t => s.stop ≤ t.start) ∧ ∀ t ∈ replaced, ∀ s ∈ kept, t.Apart s)
    ⟨fun h => ⟨h.1, h.2.1, h.2.2⟩, fun h => ⟨h.proper, h.ordered, h.apart⟩⟩

namespace Edit

variable {source : Text} {es : List Edit} {pos : Nat} {s : Span} {kept : List Span}

theorem drop_eq_slice_append {start stop : Nat} (le : start ≤ stop) :
    source.drop start = source.slice start stop ++ source.drop stop := by
  have place : start + (stop - start) = stop := by omega
  have split := List.take_append_drop (stop - start) (source.drop start)
  rw [List.drop_drop, place] at split
  exact split.symm

/-- A part that is apart from all edits stands in the text. Behind it there are still some of
the edits to be made. -/
theorem weave_eq_of_apart (proper : s.start ≤ s.stop) (after : pos ≤ s.start)
    (apart : ∀ e ∈ es, e.span.Apart s) : ∃ before later,
      weave source pos es = before ++ source.slice s.start s.stop ++ weave source s.stop later ∧
        later ⊆ es := by
  have upTo {start : Nat} (le : start ≤ s.start) :
      source.slice start s.start ++ source.slice s.start s.stop = source.slice start s.stop :=
    between_append le proper
  induction es generalizing pos with
  | nil =>
      refine ⟨source.slice pos s.start, [], ?_, List.Subset.refl _⟩
      rw [upTo after]
      exact drop_eq_slice_append (Nat.le_trans after proper)
  | cons e rest ih =>
      obtain ⟨first, others⟩ := List.forall_mem_cons.mp apart
      rcases first with passed | ahead
      · obtain ⟨before, later, split, sub⟩ := ih passed others
        refine ⟨source.slice pos e.span.start ++ e.replacement ++ before, later, ?_,
          List.subset_cons_of_subset _ sub⟩
        rw [weave, split]
        simp only [List.append_assoc]
      · refine ⟨source.slice pos s.start, e :: rest, ?_, List.Subset.refl _⟩
        have cut : source.slice pos s.stop ++ source.slice s.stop e.span.start =
            source.slice pos e.span.start :=
          between_append (Nat.le_trans after proper) ahead
        rw [weave, weave, ← cut, ← upTo after]
        simp only [List.append_assoc]

theorem inOrder_weave (after : ∀ s ∈ kept, pos ≤ s.start)
    (spared : Spared (es.map Edit.span) kept) :
    InOrder (partsOf source kept) (weave source pos es) := by
  induction kept generalizing pos es with
  | nil => trivial
  | cons s rest ih =>
      obtain ⟨proper, proper'⟩ := List.forall_mem_cons.mp spared.proper
      obtain ⟨ordered, ordered'⟩ := List.pairwise_cons.mp spared.ordered
      have apart := List.forall_mem_map.mp spared.apart
      obtain ⟨before, later, split, sub⟩ := @weave_eq_of_apart source es pos s proper
        (after s List.mem_cons_self) fun e he => apart e he s List.mem_cons_self
      refine ⟨before, _, split, ih ordered ⟨proper', ordered', ?_⟩⟩
      refine List.forall_mem_map.mpr fun e he t ht => ?_
      exact apart e (sub he) t (List.mem_cons_of_mem _ ht)

end Edit

/-- A stretch is one that linking may replace: that of a statement, which begins with the
words of the statement, or a string literal that is the argument of a dynamic import. -/
def IsReplaceable (source : List Char) (o : Outline) (t : Span) : Prop :=
  (∃ item ∈ o.items, item.stretch? = some t ∧ item.Worded source) ∨
    ∃ site ∈ o.sites, site.span = t ∧ site.Heads (source.drop t.start)

namespace Graph

/-- What becomes of a module's own text in the chunk of a root. -/
structure Remains (g : Graph) (names : List (Text × Text)) (root : Text) (m : Module)
    (o : Outline) : Prop where
  rendered : ∀ externals, Gives (g.renderModule names (m.id = root) m externals).run
    ((Edit.applyAll (g.edits names (m.id = root) m) m.source).map fun t =>
      (t, m.imports.foldl Externals.gather externals))
  replaced : ∀ e ∈ g.edits names (m.id = root) m, e.span.Within 0 m.source.length ∧
    IsReplaceable m.source.toCharsD o e.span
  apart_iff : ((g.edits names (m.id = root) m).Pairwise fun e f => e.span.Apart f.span) ↔ m.Clear
  kept : m.Clear → ∃ t, Edit.applyAll (g.edits names (m.id = root) m) m.source = .ok t ∧
    ∀ kept, Spared ((g.edits names (m.id = root) m).map Edit.span) kept →
      InOrder (partsOf m.source kept) t

variable {hooks : Hooks} {budget : Nat} {input root : Text} {g : Graph} {m : Module} {o : Outline}
  {names : List (Text × Text)}

theorem IsRead.isReplaceable (read : IsRead hooks m o) {isRoot : Bool} {e : Edit}
    (mem : e ∈ g.edits names isRoot m) : IsReplaceable m.source.toCharsD o e.span := by
  rcases List.mem_append.mp ((map_span_edits_sublist names isRoot m).subset
    (List.mem_map_of_mem mem)) with h | h
  · obtain ⟨item, hitem, there⟩ := List.mem_filterMap.mp (read.stretches_perm.mem_iff.mp h)
    exact .inl ⟨item, hitem, there, worded_of_outline read.outline item hitem⟩
  · obtain ⟨site, hsite, same⟩ := List.mem_map.mp (read.sites_sublist.subset h)
    exact .inr ⟨site, hsite, same, same ▸ heads_of_outline read.outline site hsite⟩

/-- Where a module is not the root, all its stretches are replaced. -/
theorem map_span_edits : (g.edits names false m).map Edit.span =
    m.stretches ++ m.sites.map LinkedSite.span := by
  simp [edits, leadEdits, clauseEdits, siteEdits, Module.stretches, Function.comp_def]

theorem not_holds_of_apart {a b : Span} (apart : a.Apart b) (proper : b.start < b.stop) :
    ¬ a.Holds b := by
  rintro ⟨first, last⟩
  rcases apart with h | h <;> omega

/-- Stretches that are apart leave no literal in the way. -/
theorem IsRead.clear_of_apart (read : IsRead hooks m o)
    (apart : (g.edits names false m).Pairwise fun e f => e.span.Apart f.span) : m.Clear := by
  have apart := List.pairwise_map.mpr apart
  rw [map_span_edits] at apart
  obtain ⟨-, -, across⟩ := List.pairwise_append.mp apart
  intro site hs
  have mem := List.mem_map_of_mem (f := LinkedSite.span) hs
  obtain ⟨found, hfound, same⟩ := List.mem_map.mp (read.sites_sublist.subset mem)
  have proper := (read.laid.found.within found hfound).proper
  rw [same] at proper
  have free {t : Span} (ht : t ∈ m.stretches) : ¬ t.Holds site.span :=
    not_holds_of_apart (across t ht _ mem) proper
  refine ⟨fun i hi => free ?_, fun lead hl => free ?_⟩
  · simp [Module.stretches, List.mem_map_of_mem hi]
  · simp [Module.stretches, List.mem_map_of_mem hl]

/-- What is replaced in a module that is not the root lies in its source and is a statement's
stretch or a literal. No two such stretches meet if and only if no literal is in the way of a
statement, and then everything that they spare remains, in its order. -/
theorem keeps_own_text (built : build hooks budget input = .ok g) (mem : m ∈ g.modules)
    (inner : m.id ≠ root) (names : List (Text × Text)) :
    ∃ o, outline? m.source.toCharsD = some o ∧ g.Remains names root m o := by
  have w := wellFormed_build built
  obtain ⟨o, read⟩ := w.read m mem
  refine ⟨o, read.outline, ?_⟩
  constructor
  case rendered => exact gives_renderModule g names root m
  case replaced => exact fun e he => ⟨read.within_of_mem_edits he, read.isReplaceable he⟩
  case apart_iff =>
    have notRoot : decide (m.id = root) = false := decide_eq_false inner
    rw [notRoot]
    exact ⟨read.clear_of_apart, fun clear => read.apart_edits clear names false⟩
  case kept =>
    intro clear
    refine ⟨_, w.body_eq_ok mem clear names root, fun kept spared => ?_⟩
    refine Edit.inOrder_weave (fun s _ => Nat.zero_le _) ⟨spared.proper, spared.ordered, ?_⟩
    refine List.forall_mem_map.mpr fun e he => ?_
    exact spared.apart _ (List.mem_map_of_mem ((Edit.inOrder_perm _).mem_iff.mp he))

/-- A module that is not the root, with stretches of all kinds. -/
def dressed : List Artifact :=
  [⟨text "input.js", text "import \x7b a \x7d from \"./a\";\nimport(\"./x\");\n"⟩,
    ⟨text "a.js", text ("/* one */ import \x7b x \x7d from \"./x\";\n" ++
      "export \x7b default as d \x7d from \"ext\";\n" ++
      "export const a = x, p = () => import(\"./x\");\n" ++
      "export default /* two */ a + 1;\nconst q = 2;\nexport \x7b q \x7d;\n")⟩,
    ⟨text "x.js", text "export const x = 1;\n"⟩]

/-- What is spared in the module. -/
def dressedKept : List Span :=
  [⟨0, 10⟩, ⟨78, 108⟩, ⟨113, 116⟩, ⟨141, 161⟩]

theorem keeps_own_text_dressed : ∃ g, ofModules dressed (text "input.js") = .ok g ∧
    ∃ m ∈ g.modules, m.id = text "./a.js" ∧ m.id ≠ g.entry ∧
      ∃ t, Edit.applyAll (g.edits (chunkNames g.roots) (m.id = g.entry) m) m.source = .ok t ∧
        InOrder [text "/* one */ ", text "const a = x, p = () => import(", text ");\n",
          text "a + 1;\nconst q = 2;\n"] t := by
  have run : (ofModules dressed (text "input.js")).toOption.map (fun g : Graph =>
      decide (∃ m ∈ g.modules, (m.id = text "./a.js" ∧ m.id ≠ g.entry ∧ m.Clear) ∧
        Spared ((g.edits (chunkNames g.roots) (m.id = g.entry) m).map Edit.span) dressedKept ∧
        partsOf m.source dressedKept = [text "/* one */ ", text "const a = x, p = () => import(",
          text ");\n", text "a + 1;\nconst q = 2;\n"])) = some true := by
    decide +kernel
  obtain ⟨g, built, run⟩ := Except.map_toOption_eq_some_iff.mp run
  obtain ⟨m, hm, ⟨own, inner, clear⟩, spared, parts⟩ := of_decide_eq_true run
  obtain ⟨o, -, remains⟩ := @keeps_own_text (Hooks.ofModules dressed)
    (budgetFor (dressed.map Artifact.code)) (text "input.js") g.entry g m built hm inner
      (chunkNames g.roots)
  obtain ⟨t, rendered, kept⟩ := remains.kept clear
  exact ⟨g, built, m, hm, own, inner, t, rendered, parts ▸ kept _ spared⟩

/-- A decorated class, and an import with a literal in its attributes. -/
def undressed : List Artifact :=
  [⟨text "input.js", text "import \"./a\";\nimport \"./c\";\n"⟩,
    ⟨text "a.js", text "@d\nexport class A \x7b\x7d\n"⟩,
    ⟨text "b.js", text "export const b = 1;\n"⟩,
    ⟨text "c.js", text ("import \"./a\" with \x7b t: import(\"./b\") \x7d;\n" ++
      "const y = 1;\n")⟩]

/-- The decorator is lost with the word behind it, and two stretches of the import meet. -/
theorem loses_decorator : ∃ g, ofModules undressed (text "input.js") = .ok g ∧
    (∃ m ∈ g.modules, m.id ≠ g.entry ∧ m.source = text "@d\nexport class A \x7b\x7d\n" ∧
      Edit.applyAll (g.edits (chunkNames g.roots) (m.id = g.entry) m) m.source =
        .ok (text "class A \x7b\x7d\n")) ∧
    ∃ m ∈ g.modules, m.id ≠ g.entry ∧
      ¬ (g.edits (chunkNames g.roots) (m.id = g.entry) m).Pairwise
        fun e f => e.span.Apart f.span := by
  have run : (ofModules undressed (text "input.js")).toOption.map (fun g : Graph =>
      (decide (∃ m ∈ g.modules, m.id ≠ g.entry ∧
          m.source = text "@d\nexport class A \x7b\x7d\n" ∧
          (Edit.applyAll (g.edits (chunkNames g.roots) (m.id = g.entry) m) m.source).toOption =
            some (text "class A \x7b\x7d\n")),
        decide (∃ m ∈ g.modules, m.id ≠ g.entry ∧
          ¬ (g.edits (chunkNames g.roots) (m.id = g.entry) m).Pairwise
            fun e f => e.span.Apart f.span))) = some (true, true) := by
    decide +kernel
  obtain ⟨g, built, run⟩ := Except.map_toOption_eq_some_iff.mp run
  obtain ⟨lost, meets⟩ := Prod.mk.inj run
  obtain ⟨m, hm, inner, source, body⟩ := of_decide_eq_true lost
  exact ⟨g, built, ⟨m, hm, inner, source, Except.toOption_eq_some_iff.mp body⟩,
    of_decide_eq_true meets⟩

end Graph

end Playground.Link
