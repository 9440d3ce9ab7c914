import Playground.Proofs.Link.Validity

/-!
# Imports from outside are gathered

Imports are added one by one to what is gathered from their source. The sources
come in the order in which they first occur, with all objects and all names in
braces that are imported from them, each once. So these are kept, whatever modules
they come from. Of defaults the first one of a source is kept, and the others are
lost unless they are also imported by name. When the first one is, it is bound twice.

At the top of a chunk the default and the names of a source make one statement and
each object makes another one. If the names are plain, and a literal shows the
sources as they are, the statements are read as just what was gathered.
-/

namespace Playground

/-! ## First appearance -/

namespace Ordered

variable {α κ : Type}

theorem foldl_add_of_nodup [DecidableEq α] {more as : List α} (h : (as ++ more).Nodup) :
    more.foldl (fun as a => add a as) as = as ++ more := by
  induction more generalizing as with
  | nil => rw [List.foldl_nil, List.append_nil]
  | cons a rest ih =>
      have new : a ∉ as := fun mem =>
        List.disjoint_of_nodup_append h mem List.mem_cons_self
      rw [List.append_cons] at h ⊢
      rw [List.foldl_cons, add, if_neg new]
      exact ih h

theorem nodup_firsts [DecidableEq α] (as : List α) : (firsts as).Nodup :=
  List.foldlRecOn as _ List.nodup_nil fun _ h _ _ => nodup_add h

theorem firsts_append [DecidableEq α] (as more : List α) :
    firsts (as ++ more) = more.foldl (fun as a => add a as) (firsts as) :=
  List.foldl_append

/-- A member that is repeated appears where it appeared first. -/
theorem firsts_flatMap [DecidableEq κ] {f : κ → List α} {key : α → κ} {keys : List κ}
    (some : ∀ k, f k ≠ []) (same : ∀ k, ∀ a ∈ f k, key a = k) :
    firsts ((keys.flatMap f).map key) = firsts keys := by
  have all (before : List κ) : ((keys.flatMap f).map key).foldl (fun as a => add a as) before =
      keys.foldl (fun as a => add a as) before := by
    induction keys generalizing before with
    | nil => rfl
    | cons k rest ih =>
        obtain ⟨a, more, eq⟩ := List.exists_cons_of_ne_nil (some k)
        have same := same k
        rw [eq] at same
        obtain ⟨rfl, later⟩ := List.forall_mem_cons.mp same
        have known : ∀ b ∈ more.map key, b ∈ add (key a) before :=
          List.forall_mem_map.mpr fun b mem => mem_add_iff.mpr (.inr (later b mem))
        rw [List.flatMap_cons, List.map_append, List.foldl_append, eq, List.map_cons,
          List.foldl_cons, foldl_add_of_forall_mem known, ih, List.foldl_cons]
  exact all []

theorem add_cons_of_ne [DecidableEq α] {a b : α} {as : List α} (ne : a ≠ b) :
    add a (b :: as) = b :: add a as := by
  unfold add
  by_cases mem : a ∈ as
  · rw [if_pos mem, if_pos (List.mem_cons_of_mem _ mem)]
  · rw [if_neg mem, if_neg (List.not_mem_cons_of_ne_of_not_mem ne mem)]
    rfl

/-- A table of a function is changed at one place. -/
theorem put_map [DecidableEq κ] {key : κ} {value : α} {f : κ → α} {keys : List κ}
    (distinct : keys.Nodup) : put key value (keys.map fun k => (k, f k)) =
      (add key keys).map fun k => (k, if k = key then value else f k) := by
  induction keys with
  | nil => simp [put, add]
  | cons k rest ih =>
      obtain ⟨new, distinct⟩ := List.nodup_cons.mp distinct
      rw [List.map_cons, put]
      by_cases same : k = key
      · subst same
        have others : ∀ other ∈ rest, other ≠ k := fun other mem eq => new (eq ▸ mem)
        rw [if_pos rfl, add, if_pos List.mem_cons_self, List.map_cons, if_pos rfl]
        refine congrArg _ (List.map_congr_left fun other mem => ?_)
        rw [if_neg (others other mem)]
      · rw [if_neg same, ih distinct, add_cons_of_ne (Ne.symm same), List.map_cons, if_neg same]

/-- What has a key is found with that key only. -/
theorem count_flatMap [DecidableEq α] [DecidableEq κ] {f : κ → List α} {a : α} {key : κ}
    {keys : List κ} (distinct : keys.Nodup) (only : ∀ k, a ∈ f k → k = key) :
    (keys.flatMap f).count a = if key ∈ keys then (f key).count a else 0 := by
  induction keys with
  | nil => rfl
  | cons k rest ih =>
      obtain ⟨new, distinct⟩ := List.nodup_cons.mp distinct
      rw [List.flatMap_cons, List.count_append, ih distinct]
      by_cases same : k = key
      · subst same
        rw [if_neg new, if_pos List.mem_cons_self, Nat.add_zero]
      · have none : (f k).count a = 0 := List.count_eq_zero.mpr fun mem => same (only k mem)
        rw [none, Nat.zero_add]
        simp [Ne.symm same]

end Ordered

namespace Link

open Source Text

/-! ## What is gathered -/

/-- The imports from a source. -/
def importsFrom (imports : List LinkedImport) (source : Text) : List LinkedImport :=
  imports.filter (·.source = source)

/-- The first default that is imported from a source. -/
def firstDefault (imports : List LinkedImport) (source : Text) : Option Text :=
  (importsFrom imports source).findSome? LinkedImport.default

/-- What some imports take from a source: of defaults the first one, and all else once. -/
def External.of (imports : List LinkedImport) (source : Text) : External where
  default := firstDefault imports source
  objects := Ordered.firsts ((importsFrom imports source).filterMap LinkedImport.object)
  named := Ordered.firsts ((importsFrom imports source).flatMap LinkedImport.named)

/-- Imports from outside, gathered one by one. -/
def Externals.of (imports : List LinkedImport) : Externals :=
  imports.foldl Externals.add []

variable {imports : List LinkedImport} {i : LinkedImport} {source name : Text} {e : External}

theorem External.of_concat (imports : List LinkedImport) (i : LinkedImport) (source : Text) :
    External.of (imports ++ [i]) source =
      if source = i.source then Externals.extended (External.of imports source) i
      else External.of imports source := by
  unfold External.of
  by_cases same : source = i.source
  · have own : importsFrom (imports ++ [i]) source = importsFrom imports source ++ [i] := by
      simp [importsFrom, same]
    rw [if_pos same, firstDefault, own, Externals.extended, firstDefault, List.findSome?_append,
      List.findSome?_singleton, List.filterMap_append, List.flatMap_append,
      List.flatMap_singleton, Ordered.firsts_append, Ordered.firsts_append]
    cases o : i.object <;> simp [o]
  · have own : importsFrom (imports ++ [i]) source = importsFrom imports source := by
      simp [importsFrom, Ne.symm same]
    rw [if_neg same, firstDefault, own, firstDefault]

theorem External.of_eq_empty (new : source ∉ imports.map LinkedImport.source) :
    External.of imports source = {} := by
  have none : importsFrom imports source = [] := by
    rw [importsFrom, List.filter_eq_nil_iff]
    rintro i mem same
    exact new (List.mem_map.mpr ⟨i, mem, of_decide_eq_true same⟩)
  unfold External.of firstDefault
  rw [none]
  rfl

/-- The sources come in the order of first occurrence, each with all that is taken from
it. -/
theorem Externals.of_eq (imports : List LinkedImport) : Externals.of imports =
    (Ordered.firsts (imports.map LinkedImport.source)).map fun source =>
      (source, External.of imports source) := by
  induction imports using List.reverseRecOn with
  | nil => rfl
  | append_singleton imports i ih =>
      have step : Externals.of (imports ++ [i]) = Ordered.put i.source
          (extended (((Externals.of imports).lookup i.source).getD {}) i)
          (Externals.of imports) := by
        rw [Externals.of, List.foldl_append]
        rfl
      have before : ((Externals.of imports).lookup i.source).getD {} =
          External.of imports i.source := by
        rw [ih]
        by_cases mem : i.source ∈ imports.map LinkedImport.source
        · rw [List.lookup_graph _ (Ordered.mem_firsts_iff.mpr mem)]
          rfl
        · rw [External.of_eq_empty mem, List.lookup_eq_none_iff.mpr]
          · rfl
          · refine List.forall_mem_map.mpr fun source hs => ?_
            rw [bne_iff_ne]
            rintro rfl
            exact mem (Ordered.mem_firsts_iff.mp hs)
      have after (source : Text) : External.of (imports ++ [i]) source =
          if source = i.source then extended (External.of imports i.source) i
          else External.of imports source := by
        rw [External.of_concat]
        split
        · next same => rw [same]
        · rfl
      rw [step, before, ih, Ordered.put_map (Ordered.nodup_firsts _), List.map_append,
        Ordered.firsts_append]
      exact List.map_congr_left fun source _ => by rw [after]

theorem mem_importsFrom_iff : i ∈ importsFrom imports source ↔ i ∈ imports ∧ i.source = source := by
  rw [importsFrom, List.mem_filter, decide_eq_true_iff]

theorem mem_objects_of_iff : name ∈ (External.of imports source).objects ↔
    ∃ i ∈ imports, i.source = source ∧ i.object = some name := by
  rw [External.of, Ordered.mem_firsts_iff, List.mem_filterMap]
  simp only [mem_importsFrom_iff, and_assoc]

theorem mem_named_of_iff {pair : Text × Text} : pair ∈ (External.of imports source).named ↔
    ∃ i ∈ imports, i.source = source ∧ pair ∈ i.named := by
  rw [External.of, Ordered.mem_firsts_iff, List.mem_flatMap]
  simp only [mem_importsFrom_iff, and_assoc]

theorem exists_of_firstDefault (h : firstDefault imports source = some name) :
    ∃ i ∈ imports, i.source = source ∧ i.default = some name := by
  obtain ⟨i, mem, own⟩ := List.exists_of_findSome?_eq_some h
  obtain ⟨mem, same⟩ := mem_importsFrom_iff.mp mem
  exact ⟨i, mem, same, own⟩

/-! ## What is bound -/

/-- A local name for an export of a module, or for all its exports as one object. -/
structure Use where
  name : Text
  origin : Text
  /-- The name of the export; there is none for all of them. -/
  imported : Option Text
deriving DecidableEq

/-- What an import statement binds. -/
def usesOf (origin : Text) (default object : Option Text) (named : List (Text × Text)) : List Use :=
  (default.toList.map fun name => ⟨name, origin, some (text "default")⟩) ++
    (object.toList.map fun name => ⟨name, origin, none⟩) ++
    named.map fun (imported, name) => ⟨name, origin, some imported⟩

/-- What an import from outside binds. -/
def LinkedImport.uses (i : LinkedImport) : List Use :=
  usesOf i.source i.default i.object i.named

/-- What a statement at the top of a chunk binds. -/
def Statement.uses (s : Statement) : List Use :=
  usesOf s.source s.default s.object s.named

/-- What is bound to something from a source. -/
def External.uses (source : Text) (e : External) : List Use :=
  usesOf source e.default none e.named ++ e.objects.map fun name => ⟨name, source, none⟩

theorem mem_usesOf_iff {u : Use} {origin : Text} {default object : Option Text}
    {named : List (Text × Text)} : u ∈ usesOf origin default object named ↔ u.origin = origin ∧
      (u.imported = some (text "default") ∧ default = some u.name ∨
        u.imported = none ∧ object = some u.name ∨
        ∃ imported, u.imported = some imported ∧ (imported, u.name) ∈ named) := by
  obtain ⟨name, origin', imported⟩ := u
  simp only [usesOf, List.mem_append, List.mem_map, Option.mem_toList,
    Use.mk.injEq, Prod.exists]
  constructor
  · rintro ((⟨_, own, rfl, rfl, rfl⟩ | ⟨_, own, rfl, rfl, rfl⟩) | ⟨_, _, own, rfl, rfl, rfl⟩)
    · exact ⟨rfl, .inl ⟨rfl, own⟩⟩
    · exact ⟨rfl, .inr (.inl ⟨rfl, own⟩)⟩
    · exact ⟨rfl, .inr (.inr ⟨_, rfl, own⟩)⟩
  · rintro ⟨rfl, ⟨rfl, own⟩ | ⟨rfl, own⟩ | ⟨imported, rfl, own⟩⟩
    · exact .inl (.inl ⟨_, own, rfl, rfl, rfl⟩)
    · exact .inl (.inr ⟨_, own, rfl, rfl, rfl⟩)
    · exact .inr ⟨_, _, own, rfl, rfl, rfl⟩

theorem mem_uses_iff {u : Use} : u ∈ e.uses source ↔ u.origin = source ∧
    (u.imported = some (text "default") ∧ e.default = some u.name ∨
      u.imported = none ∧ u.name ∈ e.objects ∨
      ∃ imported, u.imported = some imported ∧ (imported, u.name) ∈ e.named) := by
  have objects : u ∈ (e.objects.map fun name => (⟨name, source, none⟩ : Use)) ↔
      u.origin = source ∧ u.imported = none ∧ u.name ∈ e.objects := by
    obtain ⟨name, origin, imported⟩ := u
    simp only [List.mem_map, Use.mk.injEq]
    constructor
    · rintro ⟨_, own, rfl, rfl, rfl⟩
      exact ⟨rfl, rfl, own⟩
    · rintro ⟨rfl, rfl, own⟩
      exact ⟨_, own, rfl, rfl, rfl⟩
  rw [External.uses, List.mem_append, mem_usesOf_iff, objects, ← and_or_left]
  refine and_congr_right fun _ => ?_
  simp only [reduceCtorEq, and_false, false_or]
  exact or_assoc.trans (or_congr_right or_comm)

theorem flatMap_uses_statements (source : Text) (e : External) :
    (e.statements source).flatMap Statement.uses = e.uses source := by
  have whole (objects : List Text) :
      (objects.map fun o => ({ source, object := some o } : Statement)).flatMap Statement.uses =
        objects.map fun name => ⟨name, source, none⟩ := by
    rw [List.flatMap_map, List.map_eq_flatMap]
    rfl
  obtain ⟨default, objects, named⟩ := e
  unfold External.statements External.uses
  cases default <;> cases named <;> cases objects <;> simp [Statement.uses, usesOf, whole]

/-- What is taken from a source is bound once, but for a default that is taken by name
as well. -/
theorem two_le_count_uses_iff {u : Use} (objects : e.objects.Nodup) (named : e.named.Nodup) :
    2 ≤ (e.uses source).count u ↔ u.origin = source ∧ u.imported = some (text "default") ∧
      e.default = some u.name ∧ (text "default", u.name) ∈ e.named := by
  let defaults : List Use := usesOf source e.default none []
  let names : List Use := usesOf source none none e.named
  let wholes : List Use := e.objects.map fun name => ⟨name, source, none⟩
  have parts : e.uses source = defaults ++ names ++ wholes := by
    simp [External.uses, usesOf, defaults, names, wholes]
  have once {l : List Use} (distinct : l.Nodup) : l.count u ≤ 1 :=
    List.nodup_iff_count_le_one.mp distinct u
  have ofDefaults : defaults.count u ≤ 1 := by
    refine once ?_
    simp only [defaults, usesOf]
    cases e.default <;> simp
  have ofNames : names.count u ≤ 1 := by
    refine once (named.map fun p q same => ?_)
    simpa [Prod.ext_iff, and_comm] using same
  have ofWholes : wholes.count u ≤ 1 :=
    once (objects.map fun p q same => (Use.mk.inj same).1)
  have inDefaults : 0 < defaults.count u ↔
      u.origin = source ∧ u.imported = some (text "default") ∧ e.default = some u.name := by
    rw [List.count_pos_iff, mem_usesOf_iff]
    simp
  have inNames : 0 < names.count u ↔ u.origin = source ∧
      ∃ imported, u.imported = some imported ∧ (imported, u.name) ∈ e.named := by
    rw [List.count_pos_iff, mem_usesOf_iff]
    simp
  have inWholes : 0 < wholes.count u → u.imported = none := by
    rw [List.count_pos_iff]
    intro mem
    obtain ⟨name, -, rfl⟩ := List.mem_map.mp mem
    rfl
  rw [parts, List.count_append, List.count_append]
  constructor
  · intro twice
    -- What stands for a whole source is no export, so it is one of the wholes or none of them.
    have both : 0 < defaults.count u ∧ 0 < names.count u := by
      by_cases whole : 0 < wholes.count u
      · have noDefault : ¬ 0 < defaults.count u := fun h => by
          cases (inWholes whole).symm.trans (inDefaults.mp h).2.1
        have noName : ¬ 0 < names.count u := fun h => by
          obtain ⟨-, imported, own, -⟩ := inNames.mp h
          cases (inWholes whole).symm.trans own
        omega
      · omega
    obtain ⟨same, isDefault, own⟩ := inDefaults.mp both.1
    obtain ⟨-, imported, eq, mem⟩ := inNames.mp both.2
    cases isDefault.symm.trans eq
    exact ⟨same, isDefault, own, mem⟩
  · rintro ⟨same, isDefault, own, mem⟩
    have := inDefaults.mpr ⟨same, isDefault, own⟩
    have := inNames.mpr ⟨same, _, isDefault, mem⟩
    omega

/-! ## The top of a chunk -/

/-- The statements at the top of a chunk with some imports from outside. -/
def header (imports : List LinkedImport) : List Statement :=
  (Externals.of imports).flatMap fun (source, e) => e.statements source

theorem flatMap_uses_header (imports : List LinkedImport) :
    (header imports).flatMap Statement.uses =
      (Ordered.firsts (imports.map LinkedImport.source)).flatMap fun source =>
        (External.of imports source).uses source := by
  rw [header, List.flatMap_assoc, Externals.of_eq, List.flatMap_map]
  exact List.flatMap_congr fun source _ => flatMap_uses_statements source _

theorem render_of (imports : List LinkedImport) : (Externals.of imports).render =
    Text.join (text "\n") ((header imports).map Statement.write) := by
  rw [Externals.render, header, List.map_flatMap]
  refine congrArg _ (List.flatMap_congr fun entry _ => ?_)
  exact statements_eq entry.1 entry.2

/-- Some import takes an export by its name. -/
def ByName (imports : List LinkedImport) (u : Use) : Prop :=
  ∃ i ∈ imports, i.source = u.origin ∧
    ∃ imported, u.imported = some imported ∧ (imported, u.name) ∈ i.named

/-- A default is not the first one of its source, and no import takes it by name. -/
structure Lost (imports : List LinkedImport) (u : Use) : Prop where
  default : u.imported = some (text "default")
  later : firstDefault imports u.origin ≠ some u.name
  unnamed : ¬ ByName imports u

/-- The first default of a source is taken by name as well. -/
structure Doubled (imports : List LinkedImport) (u : Use) : Prop where
  default : u.imported = some (text "default")
  first : firstDefault imports u.origin = some u.name
  named : ByName imports u

theorem mem_flatMap_uses_iff {u : Use} : u ∈ imports.flatMap LinkedImport.uses ↔
    (u.imported = some (text "default") ∧
      ∃ i ∈ imports, i.source = u.origin ∧ i.default = some u.name) ∨
    (u.imported = none ∧ ∃ i ∈ imports, i.source = u.origin ∧ i.object = some u.name) ∨
    ByName imports u := by
  simp only [List.mem_flatMap, LinkedImport.uses, mem_usesOf_iff, eq_comm (a := u.origin)]
  constructor
  · rintro ⟨i, mem, same, ⟨isDefault, own⟩ | ⟨whole, own⟩ | own⟩
    · exact .inl ⟨isDefault, i, mem, same, own⟩
    · exact .inr (.inl ⟨whole, i, mem, same, own⟩)
    · exact .inr (.inr ⟨i, mem, same, own⟩)
  · rintro (⟨isDefault, i, mem, same, own⟩ | ⟨whole, i, mem, same, own⟩ | ⟨i, mem, same, own⟩)
    · exact ⟨i, mem, same, .inl ⟨isDefault, own⟩⟩
    · exact ⟨i, mem, same, .inr (.inl ⟨whole, own⟩)⟩
    · exact ⟨i, mem, same, .inr (.inr own)⟩

theorem byName_iff {u : Use} : ByName imports u ↔ ∃ imported,
    u.imported = some imported ∧ (imported, u.name) ∈ (External.of imports u.origin).named := by
  simp only [mem_named_of_iff]
  constructor
  · rintro ⟨i, mem, same, imported, eq, own⟩
    exact ⟨imported, eq, i, mem, same, own⟩
  · rintro ⟨imported, eq, i, mem, same, own⟩
    exact ⟨i, mem, same, imported, eq, own⟩

theorem mem_uses_of_iff {u : Use} : u ∈ (External.of imports u.origin).uses u.origin ↔
    (u.imported = some (text "default") ∧ firstDefault imports u.origin = some u.name) ∨
    (u.imported = none ∧ ∃ i ∈ imports, i.source = u.origin ∧ i.object = some u.name) ∨
    ByName imports u := by
  rw [mem_uses_iff, and_iff_right rfl, byName_iff, mem_objects_of_iff]
  rfl

theorem count_uses_header {u : Use} : ((header imports).flatMap Statement.uses).count u =
    ((External.of imports u.origin).uses u.origin).count u := by
  have only (source : Text) (mem : u ∈ (External.of imports source).uses source) :
      source = u.origin := (mem_uses_iff.mp mem).1.symm
  rw [flatMap_uses_header, Ordered.count_flatMap (Ordered.nodup_firsts _) only]
  split
  · rfl
  · next new =>
      rw [External.of_eq_empty fun mem => new (Ordered.mem_firsts_iff.mpr mem)]
      rfl

theorem mem_uses_header_iff {u : Use} : u ∈ (header imports).flatMap Statement.uses ↔
    u ∈ (External.of imports u.origin).uses u.origin := by
  rw [← List.count_pos_iff, count_uses_header, List.count_pos_iff]

/-- What imports from outside bind is bound, but for defaults that are lost. -/
theorem binds_header {u : Use} : u ∈ (header imports).flatMap Statement.uses ↔
    u ∈ imports.flatMap LinkedImport.uses ∧ ¬ Lost imports u := by
  rw [mem_uses_header_iff, mem_uses_of_iff, mem_flatMap_uses_iff]
  constructor
  · rintro (⟨isDefault, first⟩ | ⟨whole, own⟩ | named)
    · exact ⟨.inl ⟨isDefault, exists_of_firstDefault first⟩, fun lost => lost.later first⟩
    · refine ⟨.inr (.inl ⟨whole, own⟩), fun lost => ?_⟩
      cases whole.symm.trans lost.default
    · exact ⟨.inr (.inr named), fun lost => lost.unnamed named⟩
  · rintro ⟨⟨isDefault, -⟩ | whole | named, kept⟩
    · by_cases first : firstDefault imports u.origin = some u.name
      · exact .inl ⟨isDefault, first⟩
      · by_contra none
        exact kept ⟨isDefault, first, fun named => none (.inr (.inr named))⟩
    · exact .inr (.inl whole)
    · exact .inr (.inr named)

theorem doubled_iff {u : Use} :
    2 ≤ ((header imports).flatMap Statement.uses).count u ↔ Doubled imports u := by
  rw [count_uses_header,
    two_le_count_uses_iff (Ordered.nodup_firsts _) (Ordered.nodup_firsts _)]
  constructor
  · rintro ⟨-, isDefault, first, named⟩
    exact ⟨isDefault, first, byName_iff.mpr ⟨_, isDefault, named⟩⟩
  · rintro ⟨isDefault, first, named⟩
    obtain ⟨imported, eq, named⟩ := byName_iff.mp named
    cases isDefault.symm.trans eq
    exact ⟨rfl, isDefault, first, named⟩

/-- A statement takes the default or names in braces. -/
def Statement.TakesNames (s : Statement) : Prop :=
  s.default ≠ none ∨ s.named ≠ []

theorem header_eq (imports : List LinkedImport) : header imports =
    (Ordered.firsts (imports.map LinkedImport.source)).flatMap fun source =>
      (External.of imports source).statements source := by
  rw [header, Externals.of_eq, List.flatMap_map]

theorem source_of_mem_statements {s : Statement} (mem : s ∈ e.statements source) :
    s.source = source := by
  rcases mem_statements_iff.mp mem with ⟨rfl, -⟩ | ⟨o, -, rfl⟩ | ⟨rfl, -⟩ <;> rfl

theorem sources_header (imports : List LinkedImport) :
    Ordered.firsts ((header imports).map Statement.source) =
      Ordered.firsts (imports.map LinkedImport.source) := by
  have some (source : Text) : (External.of imports source).statements source ≠ [] := by
    obtain ⟨default, objects, named⟩ := External.of imports source
    unfold External.statements
    cases default <;> cases named <;> cases objects <;> simp
  rw [header_eq, Ordered.firsts_flatMap some fun source s => source_of_mem_statements]
  exact Ordered.foldl_add_of_nodup (Ordered.nodup_firsts _)

theorem pairwise_header (imports : List LinkedImport) :
    (header imports).Pairwise fun s t => s.TakesNames → t.TakesNames → s.source ≠ t.source := by
  rw [header_eq, List.pairwise_flatMap]
  constructor
  · intro source _
    obtain ⟨default, objects, named⟩ := External.of imports source
    unfold External.statements
    cases default <;> cases named <;> cases objects <;>
      simp [Statement.TakesNames, List.pairwise_map, List.pairwise_of_forall]
  · refine (Ordered.nodup_firsts _).imp fun differ s hs t ht _ _ => ?_
    rwa [source_of_mem_statements hs, source_of_mem_statements ht]

/-! ## Reading the top of a chunk -/

/-- An import from outside has plain names, and a literal shows its source as it is. -/
structure LinkedImport.Clear (i : LinkedImport) : Prop where
  outside : i.target = none
  plain : i.Plain
  shown : literalText i.source = i.source

instance (i : LinkedImport) : Decidable i.Clear :=
  decidable_of_iff (i.target = none ∧ i.Plain ∧ literalText i.source = i.source)
    ⟨fun h => ⟨h.1, h.2.1, h.2.2⟩, fun h => ⟨h.outside, h.plain, h.shown⟩⟩

theorem plain_of (clear : ∀ i ∈ imports, i.Clear) (source : Text) :
    (External.of imports source).Plain where
  default name first := by
    obtain ⟨i, mem, -, own⟩ := exists_of_firstDefault first
    exact (clear i mem).plain.default name own
  objects name mem := by
    obtain ⟨i, mem, -, own⟩ := mem_objects_of_iff.mp mem
    exact (clear i mem).plain.object name own
  named pair mem := by
    obtain ⟨i, mem, -, own⟩ := mem_named_of_iff.mp mem
    have plain := (clear i mem).plain
    exact ⟨plain.outside (clear i mem).outside pair own, plain.named pair own⟩

/-- The top of a chunk is read as just the statements that are written there. -/
theorem reads_header (clear : ∀ i ∈ imports, i.Clear) :
    ∃ o, outline? (Externals.of imports).render.toCharsD = some o ∧
      List.Forall₂ (fun s => Imports (importOf s.source s.default s.object s.named))
        (header imports) o.items := by
  have read : ∀ s ∈ header imports, ∀ depth t,
      Reader.Reads (item (grammar (depth + 16))) (s.write.toCharsD ++ t) s.Means t := by
    intro s mem depth t
    rw [header_eq] at mem
    obtain ⟨source, -, mem⟩ := List.mem_flatMap.mp mem
    exact reads_statement (plain_of clear source) mem
  have shown : ∀ s ∈ header imports, literalText s.source = s.source := by
    intro s mem
    rw [header_eq] at mem
    obtain ⟨source, known, mem⟩ := List.mem_flatMap.mp mem
    obtain ⟨i, hi, rfl⟩ := List.mem_map.mp (Ordered.mem_firsts_iff.mp known)
    rw [source_of_mem_statements mem]
    exact (clear i hi).shown
  have begins : ∀ s ∈ header imports, ∃ c ∈ s.write.toCharsD.head?, c ≠ '#' := by
    intro s _
    unfold Statement.write
    split <;> exact ⟨'i', rfl, by decide⟩
  rw [render_of]
  generalize header imports = statements at read shown begins
  cases statements with
  | nil => exact ⟨⟨[], []⟩, rfl, .nil⟩
  | cons first rest =>
      obtain ⟨o, found, all⟩ := outline?_of_lines begins read
      refine ⟨o, ?_, ?_⟩
      · rw [List.map_cons, toCharsD_join, List.flatMap_map]
        exact found
      · refine ((List.forall₂_and_left _ _).mpr ⟨shown, all⟩).imp fun s found ⟨shown, means⟩ => ?_
        rwa [Statement.Means, shown] at means

/-- What becomes of some imports from outside: the statements at the top of a chunk, and
the text that is written there. -/
structure Gathers (imports : List LinkedImport) (statements : List Statement) (top : Text) :
    Prop where
  written : top = Text.join (text "\n") (statements.map Statement.write)
  /-- Every source is there, in the order of first occurrence. -/
  sources : Ordered.firsts (statements.map Statement.source) =
    Ordered.firsts (imports.map LinkedImport.source)
  /-- No two statements take the default or names from one source. -/
  single : statements.Pairwise fun s t => s.TakesNames → t.TakesNames → s.source ≠ t.source
  /-- What the imports bind is bound to the same, but for lost defaults, and nothing else is. -/
  binds : ∀ u, u ∈ statements.flatMap Statement.uses ↔
    u ∈ imports.flatMap LinkedImport.uses ∧ ¬ Lost imports u
  /-- What is bound twice is a first default that is taken by name as well. -/
  twice : ∀ u, 2 ≤ (statements.flatMap Statement.uses).count u ↔ Doubled imports u
  /-- The text is read as the statements. -/
  reads : (∀ i ∈ imports, i.Clear) → ∃ o, outline? top.toCharsD = some o ∧
    List.Forall₂ (fun s => Imports (importOf s.source s.default s.object s.named))
      statements o.items

/-- Any imports are gathered so. -/
theorem gathers_header (imports : List LinkedImport) :
    Gathers imports (header imports) (Externals.of imports).render := by
  constructor
  case written => exact render_of imports
  case sources => exact sources_header imports
  case single => exact pairwise_header imports
  case binds => exact fun u => binds_header
  case twice => exact fun u => doubled_iff
  case reads => exact reads_header

namespace Graph

variable {g : Graph} {root : Text}

/-- The imports from outside of the modules in a chunk, in their order. -/
def outside (g : Graph) (root : Text) : List LinkedImport :=
  ((g.shown root).flatMap Module.imports).filter (·.target = none)

theorem externals_eq (g : Graph) (root : Text) :
    g.externals root = Externals.of (g.outside root) := by
  rw [Externals.of, outside, List.foldl_filter, externals]
  congr
  funext externals i
  unfold Externals.gather
  cases i.target <;> rfl

/-- At the top of a chunk stand the imports from outside of all its modules, each with all
that it binds, but for defaults after the first one of a source. -/
theorem gathers_imports {format : Text} {made : List Chunk × List Text} {chunk : Chunk}
    (generated : g.generate format = .ok made) (mem : chunk ∈ made.1) :
    ∃ root ∈ g.roots, ∃ top,
      Gathers (g.outside root) (header (g.outside root)) top ∧
        chunk.code = Text.join (text "\n\n")
          ((if top.isEmpty then [] else [top]) ++
            g.bodies (chunkNames g.roots) root (g.shown root)) ++ text "\n" := by
  obtain ⟨-, renders, rfl⟩ := generate_eq_ok_iff.mp generated
  obtain ⟨root, hroot, code⟩ := exists_root_of_mem_chunks renders mem
  refine ⟨root, hroot, _, gathers_header (g.outside root), ?_⟩
  rw [code, chunkText, externals_eq]
  split <;> rfl

/-- Two modules that import from one source in different ways. -/
def sharing : List Artifact :=
  [⟨text "input.js",
      text "import a, \x7b b as c \x7d from \"ext\";\nimport \"./a\";\nexport const y = c;\n"⟩,
    ⟨text "a.js", text "import * as n from \"ext\";\nimport \x7b b as c, d \x7d from \"ext\";\n" ++
      text "import \"side\";\nexport const x = d;\n"⟩]

theorem gathers_sharing : ∃ g chunk root top bodies o, ofModules sharing (text "input.js") = .ok g ∧
    g.generate (text "es") = .ok ([chunk], []) ∧ root ∈ g.roots ∧
    (∀ i ∈ g.outside root, i.Clear) ∧
    top = text ("import a, \x7b b as c, d \x7d from \"ext\";\n" ++
      "import * as n from \"ext\";\nimport \"side\";") ∧
    chunk.code = Text.join (text "\n\n") (top :: bodies) ++ text "\n" ∧
    outline? top.toCharsD = some o ∧ o.items.length = 3 := by
  have run : (ofModules sharing (text "input.js")).toOption.map (fun g : Graph =>
      ((g.generate (text "es")).toOption.map fun made => (made.1.length, made.2),
        decide (∀ root ∈ g.roots, (∀ i ∈ g.outside root, i.Clear) ∧
          (header (g.outside root)).length = 3 ∧
          Text.join (text "\n") ((header (g.outside root)).map Statement.write) =
            text ("import a, \x7b b as c, d \x7d from \"ext\";\n" ++
              "import * as n from \"ext\";\nimport \"side\";")))) =
      some (some (1, []), true) := by
    decide +kernel
  obtain ⟨g, built, run⟩ := Except.map_toOption_eq_some_iff.mp run
  obtain ⟨made, shown⟩ := Prod.mk.inj run
  obtain ⟨⟨chunks, warnings⟩, generated, made⟩ := Except.map_toOption_eq_some_iff.mp made
  obtain ⟨one, rfl⟩ := Prod.mk.inj made
  obtain ⟨chunk, rfl⟩ := List.length_eq_one_iff.mp one
  obtain ⟨root, hroot, top, gathers, code⟩ :=
    gathers_imports generated (List.mem_singleton_self chunk)
  obtain ⟨clear, three, written⟩ := of_decide_eq_true shown root hroot
  obtain ⟨o, found, all⟩ := gathers.reads clear
  have written := gathers.written.trans written
  refine ⟨g, chunk, root, top, g.bodies (chunkNames g.roots) root (g.shown root), o,
    built, generated, hroot, clear, written, ?_, found, all.length_eq.symm.trans three⟩
  rw [code, written]
  rfl

/-- Two modules that import the default of one source under different names. -/
def twoDefaults : List Artifact :=
  [⟨text "input.js", text "import \"./a\";\nimport b from \"ext\";\nexport const y = b;\n"⟩,
    ⟨text "a.js", text "import a from \"ext\";\nexport const x = a;\n"⟩]

/-- The second name is used, and nothing binds it. -/
theorem loses_default : ∃ g chunk, ofModules twoDefaults (text "input.js") = .ok g ∧
    g.generate (text "es") = .ok ([chunk], []) ∧
    chunk.code = text "import a from \"ext\";\n\nconst x = a;\n\nexport const y = b;\n" ∧
    ⟨text "b", text "ext", some (text "default")⟩ ∈
      (g.outside g.entry).flatMap LinkedImport.uses ∧
    ∀ u ∈ (header (g.outside g.entry)).flatMap Statement.uses, u.name ≠ text "b" := by
  have run : (ofModules twoDefaults (text "input.js")).toOption.map (fun g : Graph =>
      ((g.generate (text "es")).toOption,
        decide (⟨text "b", text "ext", some (text "default")⟩ ∈
          (g.outside g.entry).flatMap LinkedImport.uses),
        decide (∀ u ∈ (header (g.outside g.entry)).flatMap Statement.uses, u.name ≠ text "b"))) =
      some (some ([⟨text "input.js",
        text "import a from \"ext\";\n\nconst x = a;\n\nexport const y = b;\n", true, false⟩], []),
        true, true) := by
    decide +kernel
  obtain ⟨g, built, run⟩ := Except.map_toOption_eq_some_iff.mp run
  obtain ⟨made, run⟩ := Prod.mk.inj run
  obtain ⟨bound, lost⟩ := Prod.mk.inj run
  refine ⟨g, _, built, Except.toOption_eq_some_iff.mp made, rfl, ?_⟩
  exact ⟨of_decide_eq_true bound, of_decide_eq_true lost⟩

end Graph

end Link

end Playground
