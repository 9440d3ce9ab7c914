import Mathlib.Data.List.Nodup
import Playground.Link.Module

/-!
# What is remembered of a module

A module is read item by item, and every item adds to what is remembered and
takes nothing away. So most of what holds of a module that was read comes from
one item of its outline. Export tables are the exception, because a name that is
exported again takes the place of the one before: of the names in the table each
comes from an item, and each item's names are in the table, but only the last
item says what a name stands for.
-/

namespace Playground

/-! ## Collections -/

namespace Ordered

variable {α κ : Type}

theorem mem_add_iff [DecidableEq α] {a b : α} {as : List α} : b ∈ add a as ↔ b ∈ as ∨ b = a := by
  unfold add
  split
  · next h => exact ⟨.inl, fun hb => hb.elim id fun hb => hb ▸ h⟩
  · simp

theorem mem_foldl_add_iff [DecidableEq α] {b : α} {more as : List α} :
    b ∈ more.foldl (fun as a => add a as) as ↔ b ∈ as ∨ b ∈ more := by
  induction more generalizing as with
  | nil => simp
  | cons a rest ih => rw [List.foldl_cons, ih, mem_add_iff, List.mem_cons, or_assoc]

/-- The members of a list in order of first appearance. -/
def firsts [DecidableEq α] (as : List α) : List α :=
  as.foldl (fun as a => add a as) []

theorem mem_firsts_iff [DecidableEq α] {b : α} {as : List α} : b ∈ firsts as ↔ b ∈ as := by
  rw [firsts, mem_foldl_add_iff]
  exact or_iff_right List.not_mem_nil

/-- Members that are there already add nothing. -/
theorem foldl_add_of_forall_mem [DecidableEq α] {more as : List α} (h : ∀ a ∈ more, a ∈ as) :
    more.foldl (fun as a => add a as) as = as := by
  induction more with
  | nil => rfl
  | cons a rest ih =>
      rw [List.foldl_cons, add, if_pos (h a List.mem_cons_self)]
      exact ih fun b hb => h b (List.mem_cons_of_mem _ hb)

theorem mem_keys_put_iff [DecidableEq κ] {key k : κ} {value : α} {table : List (κ × α)} :
    k ∈ (put key value table).map Prod.fst ↔ k ∈ table.map Prod.fst ∨ k = key := by
  induction table with
  | nil => simp [put]
  | cons entry rest ih =>
      obtain ⟨k', v⟩ := entry
      rw [put]
      split
      · next h =>
          subst h
          simp only [List.map_cons, List.mem_cons]
          exact ⟨.inl, fun hk => hk.elim id .inl⟩
      · simp only [List.map_cons, List.mem_cons, ih, or_assoc]

theorem mem_of_mem_put [DecidableEq κ] {key : κ} {value : α} {entry : κ × α} {table : List (κ × α)}
    (h : entry ∈ put key value table) : entry ∈ table ∨ entry = (key, value) := by
  induction table with
  | nil => exact .inr (List.mem_singleton.mp h)
  | cons first rest ih =>
      obtain ⟨k, v⟩ := first
      rw [put] at h
      split at h
      · next hk =>
          rcases List.mem_cons.mp h with rfl | h
          · exact .inr (by rw [hk])
          · exact .inl (List.mem_cons_of_mem _ h)
      · rcases List.mem_cons.mp h with rfl | h
        · exact .inl List.mem_cons_self
        · exact (ih h).imp_left (List.mem_cons_of_mem _)

theorem nodup_add [DecidableEq α] {a : α} {as : List α} (h : as.Nodup) : (add a as).Nodup := by
  unfold add
  split
  · exact h
  · next ha => rw [← List.concat_eq_append]; exact (List.nodup_concat as a).mpr ⟨ha, h⟩

theorem nodup_keys_put [DecidableEq κ] {key : κ} {value : α} {table : List (κ × α)}
    (h : (table.map Prod.fst).Nodup) : ((put key value table).map Prod.fst).Nodup := by
  induction table with
  | nil => simp [put]
  | cons entry rest ih =>
      obtain ⟨k, v⟩ := entry
      rw [List.map_cons, List.nodup_cons] at h
      rw [put]
      split
      · exact List.nodup_cons.mpr h
      · next hk =>
          refine List.nodup_cons.mpr ⟨?_, ih h.2⟩
          rw [mem_keys_put_iff]
          rintro (hm | rfl)
          · exact h.1 hm
          · exact hk rfl

theorem lookup_put [BEq κ] [LawfulBEq κ] [DecidableEq κ] {key k : κ} {value : α}
    {table : List (κ × α)} :
    (put key value table).lookup k = if k = key then some value else table.lookup k := by
  induction table with
  | nil =>
      rw [put, List.lookup_cons]
      by_cases h : k = key
      · rw [if_pos h, beq_iff_eq.mpr h]
      · rw [if_neg h, beq_false_of_ne h]
  | cons entry rest ih =>
      obtain ⟨k', v⟩ := entry
      rw [put]
      split
      · next hk =>
          subst hk
          rw [List.lookup_cons, List.lookup_cons]
          by_cases h : k = k'
          · rw [if_pos h, beq_iff_eq.mpr h]
          · rw [if_neg h, beq_false_of_ne h]
      · next hk =>
          rw [List.lookup_cons, List.lookup_cons, ih]
          by_cases h : k = k'
          · subst h
            rw [if_neg hk, if_neg hk, beq_self_eq_true]
          · rw [beq_false_of_ne h]

end Ordered

namespace Link.Module

open Source

variable {resolve : Text → Option Text} {own source : Text} {count : Nat} {o : Outline}
  {m : Module}

/-! ## What an item adds -/

/-- The import that an item is. -/
def importsOf (resolve : Text → Option Text) : Item → List LinkedImport
  | .importing i => [⟨i.span, i.source, resolve i.source, i.default, i.object, i.named⟩]
  | _ => []

/-- What stands in front of the declaration or the value that an item exports. -/
def leadsOf (count : Nat) : Item → List ExportLead
  | .exporting span (.declaration _ start _) => [⟨⟨span.start, start⟩, none⟩]
  | .exporting span (.value start) =>
    [⟨⟨span.start, start⟩, some (madeUp "__default_" (count + 1))⟩]
  | _ => []

/-- The export clause that an item is. -/
def clausesOf : Item → List Span
  | .exporting span (.clause _) => [span]
  | _ => []

/-- What a re-export takes, the object being given a name. -/
def takenOf (count : Nat) : ReExported → Taken
  | .all => .all
  | .object exported => .object exported (madeUp "__ns_" (count + 1))
  | .named pairs => .named pairs

/-- The re-export that an item is. -/
def reExportsOf (resolve : Text → Option Text) (count : Nat) : Item → List LinkedReExport
  | .exporting span (.reExport source what) =>
    [⟨span, source, resolve source, takenOf count what⟩]
  | _ => []

/-- What an item asks for at once. -/
def needOf (resolve : Text → Option Text) : Item → Option Text
  | .importing i => resolve i.source
  | .exporting _ (.reExport source _) => resolve source
  | _ => none

/-- The names that an item exports, with what they stand for. -/
def bindingsOf (resolve : Text → Option Text) (count : Nat) : Item → List (Text × Binding)
  | .exporting _ (.declaration isDefault _ d) =>
    if isDefault then (d.names.take 1).map fun n => (text "default", .here n)
    else d.names.map fun n => (n, .here n)
  | .exporting _ (.value _) => [(text "default", .here (madeUp "__default_" (count + 1)))]
  | .exporting _ (.clause pairs) => pairs.map fun (name, exported) => (exported, .here name)
  | .exporting _ (.reExport source what) =>
    match resolve source, what with
    | some _, .object exported => [(exported, .here (madeUp "__ns_" (count + 1)))]
    | some t, .named pairs => pairs.map fun (imported, exported) => (exported, .there t imported)
    | _, _ => []
  | _ => []

/-- The module that an item is a star for. -/
def starsOf (resolve : Text → Option Text) : Item → List Text
  | .exporting _ (.reExport source .all) => (resolve source).toList
  | _ => []

/-- Gives some names what they stand for. -/
def bindAll (bindings table : List (Text × Binding)) : List (Text × Binding) :=
  bindings.foldl (fun table (name, binding) => Ordered.put name binding table) table

theorem exposeAll_eq (m : Module) (bindings : List (Text × Binding)) :
    m.exposeAll bindings = { m with exports := bindAll bindings m.exports } := by
  induction bindings generalizing m with
  | nil => rfl
  | cons first rest ih =>
      show (m.expose first.1 first.2).exposeAll rest = _
      rw [ih]
      rfl

/-- An item adds to each list what it says, and nothing else changes. -/
theorem addItem_eq (m : Module) (count : Nat) (item : Item) :
    (addItem resolve m count item).1 = { m with
      imports := m.imports ++ importsOf resolve item
      leads := m.leads ++ leadsOf count item
      clauses := m.clauses ++ clausesOf item
      reExports := m.reExports ++ reExportsOf resolve count item
      staticDeps := (needOf resolve item).elim m.staticDeps (Ordered.add · m.staticDeps)
      exports := bindAll (bindingsOf resolve count item) m.exports
      stars := m.stars ++ starsOf resolve item } := by
  cases item with
  | importing i =>
      cases h : resolve i.source <;>
        simp [addItem, addImport, needs, h, importsOf, leadsOf, clausesOf, reExportsOf,
          needOf, bindingsOf, starsOf, bindAll]
  | exporting span e =>
      cases e with
      | reExport source what =>
          cases what <;> cases h : resolve source <;>
            simp [addItem, addExport, addReExport, needs, h, importsOf, leadsOf, clausesOf,
              reExportsOf, takenOf, needOf, bindingsOf, starsOf, bindAll, expose, exposeAll_eq]
      | declaration isDefault start d =>
          cases isDefault <;>
            simp [addItem, addExport, importsOf, leadsOf, clausesOf, reExportsOf, needOf,
              bindingsOf, starsOf, exposeAll_eq]
      | value | clause | other =>
          simp [addItem, addExport, importsOf, leadsOf, clausesOf, reExportsOf, needOf,
            bindingsOf, starsOf, bindAll, expose, exposeAll_eq]
  | other =>
      simp [addItem, importsOf, leadsOf, clausesOf, reExportsOf, needOf, bindingsOf, starsOf,
        bindAll]

/-! ## Exported names -/

theorem mem_keys_bindAll_iff {name : Text} {bindings table : List (Text × Binding)} :
    name ∈ (bindAll bindings table).map Prod.fst ↔
      name ∈ table.map Prod.fst ∨ name ∈ bindings.map Prod.fst := by
  induction bindings generalizing table with
  | nil => simp [bindAll]
  | cons first rest ih =>
      show name ∈ (bindAll rest (Ordered.put first.1 first.2 table)).map Prod.fst ↔ _
      rw [ih, Ordered.mem_keys_put_iff, List.map_cons, List.mem_cons, or_assoc]

theorem mem_of_mem_bindAll {entry : Text × Binding} {bindings table : List (Text × Binding)}
    (h : entry ∈ bindAll bindings table) :
    entry ∈ table ∨ entry ∈ bindings := by
  induction bindings generalizing table with
  | nil => exact .inl h
  | cons first rest ih =>
      rcases ih h with h | h
      · rcases Ordered.mem_of_mem_put h with h | rfl
        · exact .inl h
        · exact .inr List.mem_cons_self
      · exact .inr (List.mem_cons_of_mem _ h)

theorem nodup_keys_bindAll {bindings table : List (Text × Binding)}
    (h : (table.map Prod.fst).Nodup) : ((bindAll bindings table).map Prod.fst).Nodup := by
  induction bindings generalizing table with
  | nil => exact h
  | cons first rest ih => exact ih (Ordered.nodup_keys_put h)

/-! ## One item after the other

Dynamic imports come behind all items, and they only add to what is rewritten and to
what is needed later. So what does not speak of these two is a matter of the items
alone. -/

theorem addSite_frame (resolve : Text → Option Text) (m : Module) (site : ImportSite) :
    ∃ sites dynamicDeps, addSite resolve m site = { m with sites, dynamicDeps } := by
  unfold addSite
  split
  · exact ⟨m.sites, m.dynamicDeps, rfl⟩
  · exact ⟨_, _, rfl⟩

theorem ofOutline_frame (resolve : Text → Option Text) (own source : Text) (count : Nat)
    (o : Outline) : ∃ sites dynamicDeps, (ofOutline resolve own source count o).1 =
      { (o.items.foldl (fun p item => addItem resolve p.1 p.2 item)
          ({ id := own, source }, count)).1 with sites, dynamicDeps } := by
  have all (l : List ImportSite) (m : Module) :
      ∃ sites dynamicDeps, l.foldl (addSite resolve) m = { m with sites, dynamicDeps } := by
    induction l generalizing m with
    | nil => exact ⟨m.sites, m.dynamicDeps, rfl⟩
    | cons site rest ih =>
        obtain ⟨_, _, first⟩ := addSite_frame resolve m site
        obtain ⟨sites, dynamicDeps, later⟩ := ih (addSite resolve m site)
        rw [first] at later
        exact ⟨sites, dynamicDeps, by rw [List.foldl_cons, first, later]⟩
  exact all o.sites _

/-- What holds at the beginning and is kept by every item holds of the module. -/
theorem ofOutline_induct {P : Module → Prop} (begins : P { id := own, source })
    (items : ∀ m count, ∀ item ∈ o.items, P m → P (addItem resolve m count item).1)
    (sites : ∀ m sites dynamicDeps, P m → P { m with sites, dynamicDeps }) :
    P (ofOutline resolve own source count o).1 := by
  have afterItems (l : List Item) (hl : ∀ item ∈ l, item ∈ o.items) (start : Module × Nat)
      (h : P start.1) : P (l.foldl (fun p item => addItem resolve p.1 p.2 item) start).1 := by
    induction l generalizing start with
    | nil => exact h
    | cons item rest ih =>
        refine ih (fun i hi => hl i (List.mem_cons_of_mem _ hi)) _ ?_
        exact items _ _ item (hl item List.mem_cons_self) h
  obtain ⟨_, _, frame⟩ := ofOutline_frame resolve own source count o
  rw [frame]
  exact sites _ _ _ (afterItems o.items (fun _ h => h) _ begins)

/-- What items add, and nothing else does, is there when one of the items adds
it. -/
theorem ofOutline_iff {F : Module → Prop} {adds : Item → Prop} (begins : ¬ F { id := own, source })
    (items : ∀ m count item, F (addItem resolve m count item).1 ↔ F m ∨ adds item)
    (sites : ∀ m sites dynamicDeps, F { m with sites, dynamicDeps } ↔ F m) :
    F (ofOutline resolve own source count o).1 ↔ ∃ item ∈ o.items, adds item := by
  have afterItems (l : List Item) (start : Module × Nat) :
      F (l.foldl (fun p item => addItem resolve p.1 p.2 item) start).1 ↔
        F start.1 ∨ ∃ item ∈ l, adds item := by
    induction l generalizing start with
    | nil => simp
    | cons item rest ih =>
        rw [List.foldl_cons, ih, items]
        simp only [List.mem_cons, exists_eq_or_imp, or_assoc]
  obtain ⟨_, _, frame⟩ := ofOutline_frame resolve own source count o
  rw [frame, sites, afterItems]
  exact or_iff_right begins

/-- A list that items only add to is made of what they add. -/
theorem ofOutline_flatMap {β : Type} {f : Module → List β} {adds : Item → List β}
    (begins : f { id := own, source } = [])
    (items : ∀ m count item, f (addItem resolve m count item).1 = f m ++ adds item)
    (sites : ∀ m sites dynamicDeps, f { m with sites, dynamicDeps } = f m) :
    f (ofOutline resolve own source count o).1 = o.items.flatMap adds := by
  have afterItems (l : List Item) (start : Module × Nat) :
      f (l.foldl (fun p item => addItem resolve p.1 p.2 item) start).1 =
        f start.1 ++ l.flatMap adds := by
    induction l generalizing start with
    | nil => simp
    | cons item rest ih =>
        rw [List.foldl_cons, ih, items, List.flatMap_cons, List.append_assoc]
  obtain ⟨_, _, frame⟩ := ofOutline_frame resolve own source count o
  rw [frame, sites, afterItems, begins, List.nil_append]

/-- What is replaced because of an item is there. -/
def Added (resolve : Text → Option Text) (item : Item) (m : Module) : Prop :=
  ∃ n, leadsOf n item ⊆ m.leads ∧ clausesOf item ⊆ m.clauses ∧
    reExportsOf resolve n item ⊆ m.reExports

theorem Added.addItem {item : Item} (h : Added resolve item m) (count : Nat) (later : Item) :
    Added resolve item (addItem resolve m count later).1 := by
  obtain ⟨n, leads, clauses, reExports⟩ := h
  refine ⟨n, ?_⟩
  rw [addItem_eq]
  exact ⟨List.subset_append_of_subset_left _ leads, List.subset_append_of_subset_left _ clauses,
    List.subset_append_of_subset_left _ reExports⟩

/-- The names that an item exports. -/
def exposedOf (resolve : Text → Option Text) : Item → List Text
  | .exporting _ (.declaration isDefault _ d) =>
    if isDefault then (d.names.take 1).map fun _ => text "default" else d.names
  | .exporting _ (.value _) => [text "default"]
  | .exporting _ (.clause pairs) => pairs.map Prod.snd
  | .exporting _ (.reExport source what) =>
    match resolve source, what with
    | some _, .object exported => [exported]
    | some _, .named pairs => pairs.map Prod.snd
    | _, _ => []
  | _ => []

theorem map_fst_bindingsOf (item : Item) :
    (bindingsOf resolve count item).map Prod.fst = exposedOf resolve item := by
  cases item with
  | exporting span e =>
      cases e with
      | declaration isDefault start d =>
          cases isDefault <;> simp [bindingsOf, exposedOf, Function.comp_def]
      | reExport source what =>
          cases what <;> cases h : resolve source <;>
            simp [bindingsOf, exposedOf, h, Function.comp_def]
      | value | clause | other => simp [bindingsOf, exposedOf, Function.comp_def]
  | importing | other => rfl

theorem id_ofOutline : (ofOutline resolve own source count o).1.id = own := by
  refine ofOutline_induct (P := fun m => m.id = own) rfl (fun m count item _ h => ?_)
    fun _ _ _ h => h
  rw [addItem_eq]
  exact h

theorem source_ofOutline : (ofOutline resolve own source count o).1.source = source := by
  refine ofOutline_induct (P := fun m => m.source = source) rfl (fun m count item _ h => ?_)
    fun _ _ _ h => h
  rw [addItem_eq]
  exact h

theorem stars_ofOutline :
    (ofOutline resolve own source count o).1.stars = o.items.flatMap (starsOf resolve) := by
  refine ofOutline_flatMap rfl (fun m count item => ?_) fun _ _ _ => rfl
  rw [addItem_eq]

theorem imports_ofOutline :
    (ofOutline resolve own source count o).1.imports = o.items.flatMap (importsOf resolve) := by
  refine ofOutline_flatMap rfl (fun m count item => ?_) fun _ _ _ => rfl
  rw [addItem_eq]

/-- Static imports are remembered in order of first appearance. -/
theorem staticDeps_ofOutline : (ofOutline resolve own source count o).1.staticDeps =
    Ordered.firsts (o.items.filterMap (needOf resolve)) := by
  have afterItems (l : List Item) (start : Module × Nat) :
      (l.foldl (fun p item => addItem resolve p.1 p.2 item) start).1.staticDeps =
        (l.filterMap (needOf resolve)).foldl (fun as a => Ordered.add a as)
          start.1.staticDeps := by
    induction l generalizing start with
    | nil => rfl
    | cons item rest ih =>
        rw [List.foldl_cons, ih, addItem_eq, List.filterMap_cons]
        cases needOf resolve item with
        | none | some => rfl
  obtain ⟨_, _, frame⟩ := ofOutline_frame resolve own source count o
  rw [frame]
  exact afterItems o.items _

/-- So are dynamic ones. -/
theorem dynamicDeps_ofOutline : (ofOutline resolve own source count o).1.dynamicDeps =
    Ordered.firsts (o.sites.filterMap fun site => resolve site.source) := by
  have afterItems (l : List Item) (start : Module × Nat) :
      (l.foldl (fun p item => addItem resolve p.1 p.2 item) start).1.dynamicDeps =
        start.1.dynamicDeps := by
    induction l generalizing start with
    | nil => rfl
    | cons item rest ih => rw [List.foldl_cons, ih, addItem_eq]
  have afterSites (l : List ImportSite) (m : Module) :
      (l.foldl (addSite resolve) m).dynamicDeps =
        (l.filterMap fun site => resolve site.source).foldl (fun as a => Ordered.add a as)
          m.dynamicDeps := by
    induction l generalizing m with
    | nil => rfl
    | cons site rest ih =>
        rw [List.foldl_cons, ih, addSite, List.filterMap_cons]
        cases resolve site.source with
        | none | some => rfl
  exact (afterSites o.sites _).trans (by rw [afterItems]; rfl)

/-- The literals that a resolver accepts, in the order of the source. -/
theorem sites_ofOutline : (ofOutline resolve own source count o).1.sites =
    o.sites.filterMap fun site => (resolve site.source).map fun t => ⟨site.span, t⟩ := by
  have afterItems (l : List Item) (start : Module × Nat) :
      (l.foldl (fun p item => addItem resolve p.1 p.2 item) start).1.sites = start.1.sites := by
    induction l generalizing start with
    | nil => rfl
    | cons item rest ih => rw [List.foldl_cons, ih, addItem_eq]
  have afterSites (l : List ImportSite) (m : Module) :
      (l.foldl (addSite resolve) m).sites = m.sites ++
        l.filterMap fun site => (resolve site.source).map fun t => ⟨site.span, t⟩ := by
    induction l generalizing m with
    | nil => exact (List.append_nil _).symm
    | cons site rest ih =>
        rw [List.foldl_cons, ih, addSite, List.filterMap_cons]
        cases resolve site.source with
        | none => rfl
        | some t => exact List.append_assoc _ _ _
  exact (afterSites o.sites _).trans (by rw [afterItems]; rfl)

theorem mem_staticDeps_ofOutline {t : Text} :
    t ∈ (ofOutline resolve own source count o).1.staticDeps ↔
      ∃ item ∈ o.items, needOf resolve item = some t := by
  refine ofOutline_iff (F := fun m => t ∈ m.staticDeps) List.not_mem_nil
    (fun m count item => ?_) fun _ _ _ => Iff.rfl
  rw [addItem_eq]
  cases needOf resolve item with
  | none => simp
  | some target =>
      refine Ordered.mem_add_iff.trans (or_congr_right ?_)
      rw [Option.some.injEq, eq_comm]

theorem mem_names_ofOutline {name : Text} :
    name ∈ (ofOutline resolve own source count o).1.exports.map Prod.fst ↔
      ∃ item ∈ o.items, name ∈ exposedOf resolve item := by
  refine ofOutline_iff (F := fun m => name ∈ m.exports.map Prod.fst) List.not_mem_nil
    (fun m count item => ?_) fun _ _ _ => Iff.rfl
  rw [addItem_eq, mem_keys_bindAll_iff, map_fst_bindingsOf]

theorem nodup_names_ofOutline :
    ((ofOutline resolve own source count o).1.exports.map Prod.fst).Nodup := by
  refine ofOutline_induct (P := fun m => (m.exports.map Prod.fst).Nodup) List.nodup_nil
    (fun m count item _ h => ?_) fun _ _ _ h => h
  rw [addItem_eq]
  exact nodup_keys_bindAll h

theorem mem_staticDeps_of_mem_stars {t : Text}
    (h : t ∈ (ofOutline resolve own source count o).1.stars) :
    t ∈ (ofOutline resolve own source count o).1.staticDeps := by
  rw [stars_ofOutline] at h
  obtain ⟨item, mem, ht⟩ := List.mem_flatMap.mp h
  refine mem_staticDeps_ofOutline.mpr ⟨item, mem, ?_⟩
  cases item with
  | exporting span e =>
      cases e with
      | reExport source what =>
          cases what with
          | all => exact Option.mem_toList.mp ht
          | object | named => cases ht
      | _ => cases ht
  | importing | other => cases ht

theorem mem_staticDeps_of_mem_imports {i : LinkedImport} {t : Text}
    (mem : i ∈ (ofOutline resolve own source count o).1.imports) (found : i.target = some t) :
    t ∈ (ofOutline resolve own source count o).1.staticDeps := by
  rw [imports_ofOutline] at mem
  obtain ⟨item, hitem, hi⟩ := List.mem_flatMap.mp mem
  refine mem_staticDeps_ofOutline.mpr ⟨item, hitem, ?_⟩
  cases item with
  | importing =>
      cases List.mem_singleton.mp hi
      exact found
  | exporting | other => cases hi

/-- A name means something in a module that was read: an exported declaration has
it, an export clause lists it, or it was made up for a default value or for the
object of another module's exports. -/
inductive Means (o : Outline) (m : Module) (name : Text) : Prop where
  | declared {span : Span} {isDefault : Bool} {start : Nat} {d : Declaration}
      (mem : .exporting span (.declaration isDefault start d) ∈ o.items) (own : name ∈ d.names)
  | listed {span : Span} {pairs : List (Text × Text)} {exported : Text}
      (mem : .exporting span (.clause pairs) ∈ o.items) (own : (name, exported) ∈ pairs)
  | value {lead : ExportLead} (mem : lead ∈ m.leads) (named : lead.valueName = some name)
  | object {r : LinkedReExport} {exported : Text} (mem : r ∈ m.reExports)
      (found : r.target ≠ none) (taken : r.taken = .object exported name)

theorem Means.mono {n : Module} {name : Text} (h : Means o m name)
    (leads : ∀ lead ∈ m.leads, lead ∈ n.leads)
    (reExports : ∀ r ∈ m.reExports, r ∈ n.reExports) : Means o n name := by
  cases h with
  | declared mem own => exact .declared mem own
  | listed mem own => exact .listed mem own
  | value mem named => exact .value (leads _ mem) named
  | object mem found taken => exact .object (reExports _ mem) found taken

theorem needOf_of_mem_bindingsOf {item : Item} {exported target name : Text}
    (h : (exported, .there target name) ∈ bindingsOf resolve count item) :
    needOf resolve item = some target := by
  cases item with
  | importing | other => cases h
  | exporting span e =>
      cases e with
      | declaration isDefault start d =>
          cases isDefault <;> obtain ⟨_, _, he⟩ := List.mem_map.mp h <;> cases he
      | value start => cases List.mem_singleton.mp h
      | clause pairs =>
          obtain ⟨_, _, he⟩ := List.mem_map.mp h
          cases he
      | reExport source what =>
          cases ht : resolve source with
          | none => simp [bindingsOf, ht] at h
          | some t =>
              cases what with
              | all => simp [bindingsOf, ht] at h
              | object e => simp [bindingsOf, ht] at h
              | named pairs =>
                  simp only [bindingsOf, ht, List.mem_map, Prod.mk.injEq,
                    Binding.there.injEq] at h
                  obtain ⟨_, _, _, rfl, _⟩ := h
                  exact ht
      | other => cases h

theorem mem_staticDeps_of_mem_exports {exported target name : Text}
    (h : (exported, .there target name) ∈ (ofOutline resolve own source count o).1.exports) :
    target ∈ (ofOutline resolve own source count o).1.staticDeps := by
  refine ofOutline_induct
    (P := fun m => ∀ exported target name, (exported, Binding.there target name) ∈ m.exports →
      target ∈ m.staticDeps)
    (fun _ _ _ h => by cases h) (fun m count item hi ih exported target name h => ?_)
    (fun _ _ _ ih => ih) exported target name h
  rw [addItem_eq] at h ⊢
  rcases mem_of_mem_bindAll h with h | h
  · cases needOf resolve item with
    | none => exact ih _ _ _ h
    | some t => exact Ordered.mem_add_iff.mpr (.inl (ih _ _ _ h))
  · rw [needOf_of_mem_bindingsOf h]
    exact Ordered.mem_add_iff.mpr (.inr rfl)

theorem mem_staticDeps_of_mem_reExports {r : LinkedReExport} {target : Text}
    (mem : r ∈ (ofOutline resolve own source count o).1.reExports)
    (found : r.target = some target) :
    target ∈ (ofOutline resolve own source count o).1.staticDeps := by
  have item : ∃ item ∈ o.items, needOf resolve item = r.target := by
    refine ofOutline_induct
      (P := fun m => ∀ r ∈ m.reExports, ∃ item ∈ o.items, needOf resolve item = r.target)
      (fun _ h => by cases h) (fun m count item hi ih r h => ?_) (fun _ _ _ ih => ih) r mem
    rw [addItem_eq] at h
    rcases List.mem_append.mp h with h | h
    · exact ih r h
    · refine ⟨item, hi, ?_⟩
      cases item with
      | importing | other => cases h
      | exporting span e =>
          cases e with
          | reExport asked what =>
              rw [List.mem_singleton.mp h]
              rfl
          | _ => cases h
  rw [found] at item
  exact mem_staticDeps_ofOutline.mpr item

end Link.Module

end Playground
