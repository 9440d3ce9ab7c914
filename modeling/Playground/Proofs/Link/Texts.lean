import Playground.Proofs.Json.Strings
import Playground.Proofs.Link.Stretches
import Playground.Proofs.Source.Names

/-!
# Modules come to texts

What is put in the place of a stretch is written with names of the graph. Those
were cut out of sources or made up, so none has a surrogate in it, and string
literals are written in ASCII. So a module whose stretches are apart comes to a
text, and that text is its source with all stretches replaced.
-/

namespace Playground

open Source

/-! ## Texts that are made up -/

theorem Text.Whole.ofNat (n : Nat) : Whole (Text.ofNat n) :=
  .ofChars _

theorem Json.whole_renderString (t : Text) : (renderString true t).Whole := by
  have escape (n : Nat) : (unicodeEscape n).Whole := by
    refine (Text.Whole.text _).append ?_
    unfold Text.hexDigits
    exact .ofChars _
  have one (c : CodePoint) : (escapeOne true c).Whole := by
    have written := escaped_escapeOne true c
    generalize escapeOne true c = w at written ⊢
    cases written with
    | short letter => exact .ofChars ['\\', letter]
    | control => exact escape _
    | plain _ _ _ seen =>
        have := seen.resolve_left (by decide)
        refine List.forall_mem_singleton.mpr ?_
        show (decide (0xD800 ≤ c.val) && decide (c.val ≤ 0xDFFF)) = false
        rw [Bool.and_eq_false_iff, decide_eq_false_iff_not]
        exact .inl (by omega)
    | unicode => exact escape _
    | halves => exact (escape _).append (escape _)
  refine Text.Whole.append (Text.Whole.append (.ofChars ['"']) (.flatten ?_)) (.ofChars ['"'])
  exact List.forall_mem_map.mpr fun c _ => one c

namespace Link

/-- What a re-export takes is named without surrogates. -/
def Taken.Whole : Taken → Prop
  | .all => True
  | .object exported name => exported.Whole ∧ name.Whole
  | .named pairs => ∀ pair ∈ pairs, WholePair pair

/-- What an exported name stands for has a name without surrogates. -/
def Binding.Whole : Binding → Prop
  | .here name | .there _ name => name.Whole

namespace Module

variable {resolve : Text → Option Text} {own source : Text} {count : Nat} {o : Outline}
  {m : Module} {item : Item}

/-! ## What is remembered -/

/-- Nothing that is remembered of a module is named with surrogates. -/
structure WholeNames (m : Module) : Prop where
  imports : ∀ i ∈ m.imports, (∀ name ∈ i.default, name.Whole) ∧
    (∀ name ∈ i.object, name.Whole) ∧ ∀ pair ∈ i.named, WholePair pair
  leads : ∀ lead ∈ m.leads, ∀ name ∈ lead.valueName, name.Whole
  reExports : ∀ r ∈ m.reExports, r.taken.Whole
  exports : ∀ entry ∈ m.exports, entry.1.Whole ∧ entry.2.Whole

theorem whole_madeUp (lead : String) (n : Nat) : (madeUp lead n).Whole :=
  (Text.Whole.text lead).append (.ofNat n)

theorem whole_takenOf {what : ReExported} (h : what.Whole) : (takenOf count what).Whole := by
  cases what with
  | all => trivial
  | object exported => exact ⟨h, whole_madeUp _ _⟩
  | named pairs => exact h

theorem whole_bindingsOf (h : item.Whole) :
    ∀ entry ∈ bindingsOf resolve count item, entry.1.Whole ∧ entry.2.Whole := by
  have default : (text "default").Whole := .text _
  cases item with
  | importing | other => exact List.forall_mem_nil _
  | exporting span e =>
      cases e with
      | other => exact List.forall_mem_nil _
      | declaration isDefault start d =>
          cases isDefault with
          | true =>
              exact List.forall_mem_map.mpr fun n mem => ⟨default, h n (List.mem_of_mem_take mem)⟩
          | false => exact List.forall_mem_map.mpr fun n mem => ⟨h n mem, h n mem⟩
      | value start => exact List.forall_mem_singleton.mpr ⟨default, whole_madeUp _ _⟩
      | clause pairs => exact List.forall_mem_map.mpr fun pair mem => ⟨(h pair mem).2, (h pair mem).1⟩
      | reExport source what =>
          simp only [bindingsOf]
          cases resolve source with
          | none => exact List.forall_mem_nil _
          | some target =>
              cases what with
              | all => exact List.forall_mem_nil _
              | object exported => exact List.forall_mem_singleton.mpr ⟨h, whole_madeUp _ _⟩
              | named pairs =>
                  exact List.forall_mem_map.mpr fun pair mem => ⟨(h pair mem).2, (h pair mem).1⟩

theorem WholeNames.addItem (w : m.WholeNames) (h : item.Whole) :
    (addItem resolve m count item).1.WholeNames := by
  rw [addItem_eq]
  constructor
  case imports =>
    refine List.forall_mem_append.mpr ⟨w.imports, ?_⟩
    cases item with
    | importing i => exact List.forall_mem_singleton.mpr ⟨h.default, h.object, h.named⟩
    | exporting | other => exact List.forall_mem_nil _
  case leads =>
    refine List.forall_mem_append.mpr ⟨w.leads, ?_⟩
    cases item with
    | importing | other => exact List.forall_mem_nil _
    | exporting span e =>
        cases e with
        | declaration => exact List.forall_mem_singleton.mpr nofun
        | value =>
            refine List.forall_mem_singleton.mpr ?_
            rintro _ ⟨⟩
            exact whole_madeUp _ _
        | clause | reExport | other => exact List.forall_mem_nil _
  case reExports =>
    refine List.forall_mem_append.mpr ⟨w.reExports, ?_⟩
    cases item with
    | importing | other => exact List.forall_mem_nil _
    | exporting span e =>
        cases e with
        | reExport => exact List.forall_mem_singleton.mpr (whole_takenOf h)
        | declaration | value | clause | other => exact List.forall_mem_nil _
  case exports =>
    intro entry mem
    rcases mem_of_mem_bindAll mem with mem | mem
    · exact w.exports entry mem
    · exact whole_bindingsOf h entry mem

theorem wholeNames_ofOutline (h : ∀ item ∈ o.items, item.Whole) :
    (ofOutline resolve own source count o).1.WholeNames := by
  refine ofOutline_induct ?_ (fun m count item mem w => w.addItem (h item mem)) fun _ _ _ w => ?_
  · exact ⟨List.forall_mem_nil _, List.forall_mem_nil _, List.forall_mem_nil _,
      List.forall_mem_nil _⟩
  · exact ⟨w.imports, w.leads, w.reExports, w.exports⟩

end Module

namespace Graph

variable {hooks : Hooks} {g : Graph} {m : Module} {o : Outline} {target name : Text}

theorem WellFormed.wholeNames (w : g.WellFormed hooks) (mem : m ∈ g.modules) : m.WholeNames := by
  obtain ⟨o, read⟩ := w.read m mem
  exact read.lift fun _ => Module.wholeNames_ofOutline (whole_of_outline read.outline)

/-! ## What is put in -/

theorem WellFormed.whole_localName (w : g.WellFormed hooks) (target name : Text) :
    (g.localName target name).Whole := by
  unfold localName
  cases found : g.resolveExport target name with
  | none => exact .text _
  | some result =>
      obtain ⟨k, hk, -, exported, there⟩ := w.of_resolveFrom found
      exact ((w.wholeNames hk).exports _ there).2

theorem exists_export_of_mem_exportNames (h : name ∈ g.exportNames target) :
    ∃ m ∈ g.modules, ∃ entry ∈ m.exports, entry.1 = name := by
  have table {start : Text} (h : Lists g.modules start name) :
      ∃ m ∈ g.modules, ∃ entry ∈ m.exports, entry.1 = name := by
    obtain ⟨m, known, mem⟩ := h
    exact ⟨m, mem_of_find? known, List.mem_map.mp mem⟩
  rcases ((mem_namesFrom_iff (fits_nil g.modules)).mp h).2 with lists | ⟨-, last, -, lists⟩
  · exact table lists
  · exact table lists

theorem WellFormed.whole_of_mem_exportNames (w : g.WellFormed hooks)
    (h : name ∈ g.exportNames target) : name.Whole := by
  obtain ⟨m, mem, entry, there, rfl⟩ := exists_export_of_mem_exportNames h
  exact ((w.wholeNames mem).exports entry there).1

theorem whole_declare {name value : Text} (hn : name.Whole) (hv : value.Whole) :
    (declare name value).Whole :=
  ((((Text.Whole.text _).append hn).append (.text _)).append hv).append (.text _)

theorem WellFormed.whole_objectText (w : g.WellFormed hooks) (target : Text) :
    (g.objectText target).Whole := by
  refine ((Text.Whole.text _).append (.flatten ?_)).append (.text _)
  refine List.forall_mem_map.mpr fun name _ => ?_
  exact (((Text.Whole.text _).append (Json.whole_renderString name)).append (.text _)).append
    (w.whole_localName target name)

theorem WellFormed.whole_of_mem_bindingLines (w : g.WellFormed hooks) {imported line : Text}
    (hn : name.Whole) (mem : line ∈ g.bindingLines target imported name) : line.Whole := by
  unfold bindingLines at mem
  split at mem
  · cases mem
  · rw [List.mem_singleton.mp mem]
    exact whole_declare hn (w.whole_localName _ _)

theorem WellFormed.whole_importText (w : g.WellFormed hooks) (mem : m ∈ g.modules)
    {i : LinkedImport} (hi : i ∈ m.imports) : (g.importText i).Whole := by
  obtain ⟨default, object, named⟩ := (w.wholeNames mem).imports i hi
  unfold importText
  cases i.target with
  | none => exact .nil
  | some target =>
      refine .join (.text _) fun line mem => ?_
      rcases List.mem_append.mp mem with mem | mem
      · rcases List.mem_append.mp mem with mem | mem
        · cases hd : i.default with
          | none =>
              rw [hd] at mem
              cases mem
          | some name =>
              rw [hd] at mem
              exact w.whole_of_mem_bindingLines (default name hd) mem
        · cases ho : i.object with
          | none =>
              rw [ho] at mem
              cases mem
          | some name =>
              rw [ho] at mem
              rw [List.mem_singleton.mp mem]
              exact whole_declare (object name ho) (w.whole_objectText target)
      · obtain ⟨lines, hlines, mem⟩ := List.mem_flatten.mp mem
        obtain ⟨pair, hp, rfl⟩ := List.mem_map.mp hlines
        exact w.whole_of_mem_bindingLines (named pair hp).2 mem

theorem whole_braced {names : List Text} (h : ∀ name ∈ names, name.Whole) :
    (Externals.braced names).Whole :=
  ((Text.Whole.text _).append (.join (.text _) h)).append (.text _)

theorem whole_aliased {name other : Text} (hn : name.Whole) (ho : other.Whole) :
    (Externals.aliased name other).Whole := by
  unfold Externals.aliased
  split
  · exact hn
  · exact (hn.append (.text _)).append ho

theorem WellFormed.whole_of_mem_clauseOf (w : g.WellFormed hooks) {taken : Taken}
    (h : taken.Whole) : ∀ pair ∈ g.clauseOf target taken, WholePair pair := by
  cases taken with
  | object exported name => exact List.forall_mem_singleton.mpr ⟨h.2, h.1⟩
  | all =>
      refine List.forall_mem_map.mpr fun pair mem => ⟨w.whole_localName _ _, ?_⟩
      obtain ⟨name, hname, rfl⟩ := List.mem_map.mp mem
      exact w.whole_of_mem_exportNames (List.mem_filter.mp hname).1
  | named pairs =>
      exact List.forall_mem_map.mpr fun pair mem => ⟨w.whole_localName _ _, (h pair mem).2⟩

theorem WellFormed.whole_reExportLine (w : g.WellFormed hooks) (mem : m ∈ g.modules)
    {r : LinkedReExport} (hr : r ∈ m.reExports) (isRoot : Bool) :
    (g.reExportLine m isRoot r).Whole := by
  have taken := (w.wholeNames mem).reExports r hr
  unfold reExportLine
  split
  · split
    · exact (Utf8.whole_of_firstSurrogates (w.whole m mem)).of_subset
        (List.Subset.trans (List.take_subset _ _) (List.drop_subset _ _))
    · exact .nil
  · next target _ =>
    split
    · next exported name h =>
      rw [h] at taken
      have line := whole_declare taken.2 (w.whole_objectText target)
      split
      · refine ((line.append (.text _)).append (whole_braced ?_)).append (.text _)
        exact List.forall_mem_singleton.mpr ((taken.2.append (.text _)).append taken.1)
      · exact line
    · split
      · exact .nil
      · unfold clauseLine
        split
        · exact .nil
        · refine ((Text.Whole.text _).append (whole_braced ?_)).append (.text _)
          refine List.forall_mem_map.mpr fun pair mem => ?_
          have whole := w.whole_of_mem_clauseOf taken pair mem
          exact whole_aliased whole.1 whole.2

/-- Nothing that is put in has a surrogate in it. -/
theorem WellFormed.whole_of_mem_edits (w : g.WellFormed hooks) (mem : m ∈ g.modules)
    {names : List (Text × Text)} {isRoot : Bool} {e : Edit} (h : e ∈ g.edits names isRoot m) :
    e.replacement.Whole := by
  rcases mem_edits_iff.mp h with ⟨i, hi, rfl⟩ | h | h | ⟨r, hr, rfl⟩ | h
  · exact w.whole_importText mem hi
  · unfold leadEdits at h
    split at h
    · cases h
    · obtain ⟨lead, hl, rfl⟩ := List.mem_map.mp h
      cases named : lead.valueName with
      | none => exact .nil
      | some name =>
          have whole := (w.wholeNames mem).leads lead hl name named
          exact ((Text.Whole.text _).append whole).append (.text _)
  · unfold clauseEdits at h
    split at h
    · cases h
    · obtain ⟨span, -, rfl⟩ := List.mem_map.mp h
      exact .nil
  · exact w.whole_reExportLine mem hr isRoot
  · obtain ⟨site, -, rfl⟩ := List.mem_map.mp h
    exact Json.whole_renderString _

/-! ## Modules -/

/-- A module whose literals are in no one's way comes to its source with all stretches
replaced. -/
theorem WellFormed.body_eq_ok (w : g.WellFormed hooks) (mem : m ∈ g.modules) (clear : m.Clear)
    (names : List (Text × Text)) (root : Text) : g.body names root m =
      .ok (Edit.weave m.source 0 (Edit.inOrder (g.edits names (m.id = root) m))) := by
  obtain ⟨o, read⟩ := w.read m mem
  refine Edit.applyAll_ok (fun e he => (read.within_of_mem_edits he).proper) ?_ ?_ ?_
  · exact read.apart_edits clear names _
  · exact Utf8.whole_of_firstSurrogates (w.whole m mem)
  · exact fun e he => w.whole_of_mem_edits mem he

end Graph

end Link

end Playground
