import Playground.Proofs.Link.Rendering
import Playground.Proofs.Link.Weaving

/-!
# The stretches that are replaced in a module

Each statement gives the module at most one stretch that is replaced, and the
literals of its dynamic imports give the others. The stretches of statements are
apart from each other, and so are the literals. So all stretches are apart unless
a literal stands in an import statement, or in front of what is exported.
-/

namespace Playground.Link

open Source

namespace Module

variable {resolve : Text → Option Text} {own source : Text} {count : Nat} {o : Outline}

/-- No literal of a dynamic import stands in an import statement, or in front of a
declaration or a value that is exported. -/
def Clear (m : Module) : Prop :=
  ∀ site ∈ m.sites, (∀ i ∈ m.imports, ¬ i.span.Holds site.span) ∧
    ∀ lead ∈ m.leads, ¬ lead.span.Holds site.span

instance (m : Module) : Decidable m.Clear :=
  inferInstanceAs (Decidable (∀ site ∈ m.sites, (∀ i ∈ m.imports, ¬ i.span.Holds site.span) ∧
    ∀ lead ∈ m.leads, ¬ lead.span.Holds site.span))

/-- The stretches that are replaced because of a module's statements. -/
def stretches (m : Module) : List Span :=
  m.imports.map LinkedImport.span ++ m.leads.map ExportLead.span ++ m.clauses ++
    m.reExports.map LinkedReExport.span

theorem map_span_leadsOf (n : Nat) (item : Item) :
    (leadsOf n item).map ExportLead.span = (leadsOf 0 item).map ExportLead.span := by
  cases item with
  | importing | other => rfl
  | exporting span e => cases e <;> rfl

theorem map_span_reExportsOf (n : Nat) (item : Item) :
    (reExportsOf resolve n item).map LinkedReExport.span =
      (reExportsOf resolve 0 item).map LinkedReExport.span := by
  cases item with
  | importing | other => rfl
  | exporting span e => cases e <;> rfl

/-- A statement gives the module the stretch that it has. -/
theorem stretches_of_item (resolve : Text → Option Text) (item : Item) :
    (importsOf resolve item).map LinkedImport.span ++ (leadsOf 0 item).map ExportLead.span ++
      clausesOf item ++ (reExportsOf resolve 0 item).map LinkedReExport.span =
      item.stretch?.toList := by
  cases item with
  | importing | other => rfl
  | exporting span e => cases e <;> rfl

theorem map_span_imports_ofOutline :
    (ofOutline resolve own source count o).1.imports.map LinkedImport.span =
      o.items.flatMap fun item => (importsOf resolve item).map LinkedImport.span := by
  rw [imports_ofOutline, List.map_flatMap]

theorem map_span_leads_ofOutline :
    (ofOutline resolve own source count o).1.leads.map ExportLead.span =
      o.items.flatMap fun item => (leadsOf 0 item).map ExportLead.span := by
  refine ofOutline_flatMap (f := fun m => m.leads.map ExportLead.span) rfl
    (fun m count item => ?_) fun _ _ _ => rfl
  rw [addItem_eq, ← map_span_leadsOf count]
  exact List.map_append

theorem stretches_ofOutline :
    (stretches (ofOutline resolve own source count o).1).Perm
      (o.items.filterMap Item.stretch?) := by
  have clauses : (ofOutline resolve own source count o).1.clauses =
      o.items.flatMap clausesOf := by
    refine ofOutline_flatMap rfl (fun m count item => ?_) fun _ _ _ => rfl
    rw [addItem_eq]
  have reExports : (ofOutline resolve own source count o).1.reExports.map LinkedReExport.span =
      o.items.flatMap fun item => (reExportsOf resolve 0 item).map LinkedReExport.span := by
    refine ofOutline_flatMap (f := fun m => m.reExports.map LinkedReExport.span) rfl
      (fun m count item => ?_) fun _ _ _ => rfl
    rw [addItem_eq, ← map_span_reExportsOf count]
    exact List.map_append
  have all : o.items.filterMap Item.stretch? = o.items.flatMap fun item =>
      (importsOf resolve item).map LinkedImport.span ++ (leadsOf 0 item).map ExportLead.span ++
        clausesOf item ++ (reExportsOf resolve 0 item).map LinkedReExport.span := by
    rw [List.filterMap_eq_flatMap_toList]
    exact List.flatMap_congr fun item _ => (stretches_of_item resolve item).symm
  rw [stretches, map_span_imports_ofOutline, map_span_leads_ofOutline, clauses, reExports, all]
  refine .trans (.append_right _ ?_) (List.flatMap_append_perm _ _ _)
  refine .trans (.append_right _ ?_) (List.flatMap_append_perm _ _ _)
  exact List.flatMap_append_perm _ _ _

/-- A statement that may hold a literal is an import, or it has a lead. -/
theorem mem_span_of_mayHold {item : Item} {t : Span} (mem : item ∈ o.items)
    (there : item.stretch? = some t) (may : item.MayHold) :
    t ∈ (ofOutline resolve own source count o).1.imports.map LinkedImport.span ∨
      t ∈ (ofOutline resolve own source count o).1.leads.map ExportLead.span := by
  rw [map_span_imports_ofOutline, map_span_leads_ofOutline]
  cases item with
  | importing i =>
      cases there
      exact .inl (List.mem_flatMap.mpr ⟨_, mem, List.mem_singleton_self _⟩)
  | other => cases may
  | exporting span e =>
      cases e with
      | declaration | value =>
          cases there
          exact .inr (List.mem_flatMap.mpr ⟨_, mem, List.mem_singleton_self _⟩)
      | clause | reExport | other => cases may

end Module

namespace Graph

variable {hooks : Hooks} {g : Graph} {m : Module} {o : Outline}

theorem IsRead.stretches_perm (read : IsRead hooks m o) :
    m.stretches.Perm (o.items.filterMap Item.stretch?) :=
  read.lift (F := fun n => n.stretches.Perm _) fun _ => Module.stretches_ofOutline

theorem IsRead.laid (read : IsRead hooks m o) : Laid 0 m.source.length o.items o.sites := by
  have laid := laid_of_outline read.outline
  rwa [Text.toCharsD, List.length_map] at laid

theorem IsRead.sites_sublist (read : IsRead hooks m o) :
    (m.sites.map LinkedSite.span).Sublist (o.sites.map ImportSite.span) := by
  have sites : m.sites = o.sites.filterMap fun site =>
      (resolveIn hooks m.id site.source).map fun t => ⟨site.span, t⟩ :=
    read.lift (F := fun n => n.sites = _) fun _ => Module.sites_ofOutline
  rw [sites]
  clear sites
  induction o.sites with
  | nil => exact .slnil
  | cons site rest ih =>
      rw [List.filterMap_cons]
      cases resolveIn hooks m.id site.source with
      | none => exact ih.cons _
      | some t => exact ih.cons_cons _

/-- A literal in a statement's stretch is in the way of the statement. -/
theorem IsRead.apart_of_clear (read : IsRead hooks m o) (clear : m.Clear) {t s : Span}
    (ht : t ∈ m.stretches) (hs : s ∈ m.sites.map LinkedSite.span) : t.Apart s := by
  obtain ⟨item, mem, there⟩ := List.mem_filterMap.mp (read.stretches_perm.mem_iff.mp ht)
  obtain ⟨found, hfound, rfl⟩ := List.mem_map.mp (read.sites_sublist.subset hs)
  obtain ⟨site, hsite, same⟩ := List.mem_map.mp hs
  rcases read.laid.spares item mem found hfound t there with apart | ⟨holds, may⟩
  · exact apart.symm
  · obtain ⟨imports, leads⟩ := clear site hsite
    have held : t ∈ m.imports.map LinkedImport.span ∨ t ∈ m.leads.map ExportLead.span :=
      read.lift (F := fun n => t ∈ n.imports.map _ ∨ t ∈ n.leads.map _)
        fun _ => Module.mem_span_of_mayHold mem there may
    rw [← same] at holds
    rcases held with held | held
    · obtain ⟨i, hi, rfl⟩ := List.mem_map.mp held
      exact absurd holds (imports i hi)
    · obtain ⟨lead, hl, rfl⟩ := List.mem_map.mp held
      exact absurd holds (leads lead hl)

/-! ## The edits of a module -/

theorem map_span_edits_sublist (names : List (Text × Text)) (isRoot : Bool) (m : Module) :
    ((g.edits names isRoot m).map Edit.span).Sublist
      (m.stretches ++ m.sites.map LinkedSite.span) := by
  have leads : ((leadEdits m isRoot).map Edit.span).Sublist (m.leads.map ExportLead.span) := by
    unfold leadEdits
    cases isRoot with
    | true => exact List.nil_sublist _
    | false =>
        rw [if_neg Bool.false_ne_true, List.map_map]
        exact .refl _
  have clauses : ((clauseEdits m isRoot).map Edit.span).Sublist m.clauses := by
    unfold clauseEdits
    cases isRoot with
    | true => exact List.nil_sublist _
    | false =>
        rw [if_neg Bool.false_ne_true, List.map_map]
        exact (List.map_id _).symm ▸ .refl _
  simp only [edits, Module.stretches, siteEdits, List.map_append, List.map_map]
  exact ((((List.Sublist.refl _).append leads).append clauses).append (.refl _)).append (.refl _)

/-- The stretches that are replaced lie in the source. -/
theorem IsRead.within_of_mem_edits (read : IsRead hooks m o) {names : List (Text × Text)}
    {isRoot : Bool} {e : Edit} (mem : e ∈ g.edits names isRoot m) :
    e.span.Within 0 m.source.length := by
  have laid := read.laid
  rcases List.mem_append.mp ((map_span_edits_sublist names isRoot m).subset
    (List.mem_map_of_mem mem)) with h | h
  · obtain ⟨item, hitem, there⟩ := List.mem_filterMap.mp (read.stretches_perm.mem_iff.mp h)
    exact laid.within item hitem e.span there
  · obtain ⟨site, hsite, same⟩ := List.mem_map.mp (read.sites_sublist.subset h)
    rw [← same]
    exact laid.found.within site hsite

/-- The stretches that are replaced are apart, if no literal is in the way. -/
theorem IsRead.apart_edits (read : IsRead hooks m o) (clear : m.Clear)
    (names : List (Text × Text)) (isRoot : Bool) :
    (g.edits names isRoot m).Pairwise fun e f => e.span.Apart f.span := by
  have laid := read.laid
  have ofItems : m.stretches.Pairwise Span.Apart :=
    (read.stretches_perm.pairwise_iff fun h => h.symm).mpr (laid.ordered.imp .inl)
  have ofSites : (m.sites.map LinkedSite.span).Pairwise Span.Apart :=
    (List.pairwise_map.mpr laid.found.apart).sublist read.sites_sublist
  have all : (m.stretches ++ m.sites.map LinkedSite.span).Pairwise Span.Apart :=
    List.pairwise_append.mpr ⟨ofItems, ofSites, fun t ht s hs => read.apart_of_clear clear ht hs⟩
  exact List.pairwise_map.mp (all.sublist (map_span_edits_sublist names isRoot m))

end Graph

end Playground.Link
