import Playground.Link.Chunk
import Playground.Proofs.Link.Reading

/-!
# What is loaded

When loading ends well, every module was read from the code that was found for
its id, no two have the same id, and whatever a module references is there. The
work is done on two lists, the modules so far and the ids that are pending. What
a module so far references is in one of them, and at the end nothing is pending.
-/

namespace Playground.Link

open Source

namespace Graph

variable {hooks : Hooks} {modules loaded : List Module} {pending : Pending}
  {m : Module} {o : Outline} {name : Text}

/-! ## Modules and their ids -/

theorem find?_isSome_iff : (find? modules name).isSome ↔ name ∈ modules.map Module.id := by
  simp [find?]

theorem mem_of_find? (h : find? modules name = some m) : m ∈ modules :=
  List.mem_of_find?_eq_some h

theorem id_of_find? (h : find? modules name = some m) : m.id = name := by
  simpa using List.find?_some h

theorem find?_of_mem (distinct : (modules.map Module.id).Nodup) (mem : m ∈ modules) :
    find? modules m.id = some m := by
  cases h : find? modules m.id with
  | none =>
      have hsome := find?_isSome_iff.mpr (List.mem_map_of_mem (f := Module.id) mem)
      rw [h] at hsome
      cases hsome
  | some n =>
      rw [List.inj_on_of_nodup_map distinct (mem_of_find? h) mem (id_of_find? h)]

/-! ## Loading -/

/-- The module that a specifier means in the module with an id. -/
def resolveIn (hooks : Hooks) (importer specifier : Text) : Option Text :=
  hooks.resolve specifier (some importer)

/-- A module is what was read from the code of its id. -/
structure IsRead (hooks : Hooks) (m : Module) (o : Outline) : Prop where
  load : hooks.load m.id = some m.source
  outline : Source.outline? m.source.toCharsD = some o
  read : ∃ count, m = (Module.ofOutline (resolveIn hooks m.id) m.id m.source count o).1

/-- What holds of every module with the outline holds of the one that was read. -/
theorem IsRead.lift (read : IsRead hooks m o) {F : Module → Prop}
    (h : ∀ count, F (Module.ofOutline (resolveIn hooks m.id) m.id m.source count o).1) : F m := by
  obtain ⟨count, hm⟩ := read.read
  rw [hm]
  exact h count

/-- A module that is read has no surrogates, and it is the one with the outline of its source. -/
theorem outline_of_read {source : Text} {count count' : Nat}
    (h : Module.read hooks name source count = .ok (m, count')) :
    Utf8.firstSurrogates 0 source = none ∧ ∃ o, Source.outline? source.toCharsD = some o ∧
      m = (Module.ofOutline (resolveIn hooks name) name source count o).1 := by
  unfold Module.read at h
  split at h
  · cases h
  · next whole =>
      split at h
      · cases h
      · next o outline =>
          exact ⟨whole, o, outline, (congrArg Prod.fst (Except.ok.inj h)).symm⟩

theorem isRead_of_read {source : Text} {count count' : Nat}
    (load : hooks.load name = some source)
    (h : Module.read hooks name source count = .ok (m, count')) :
    m.id = name ∧ Utf8.firstSurrogates 0 m.source = none ∧ ∃ o, IsRead hooks m o := by
  obtain ⟨whole, o, outline, hm⟩ := outline_of_read h
  have hid : m.id = name := hm ▸ Module.id_ofOutline
  have hsource : m.source = source := hm ▸ Module.source_ofOutline
  refine ⟨hid, ?_, o, ?_, ?_, count, ?_⟩
  · rw [hsource]
    exact whole
  · rw [hid, hsource]
    exact load
  · rw [hsource]
    exact outline
  · rw [hid, hsource]
    exact hm

/-- What holds of the modules so far. -/
structure Loads (hooks : Hooks) (modules : List Module) (pending : Pending) : Prop where
  distinct : (modules.map Module.id).Nodup
  whole : ∀ m ∈ modules, Utf8.firstSurrogates 0 m.source = none
  read : ∀ m ∈ modules, ∃ o, IsRead hooks m o
  closed : ∀ m ∈ modules, ∀ d ∈ m.deps,
    d ∈ modules.map Module.id ∨ d ∈ pending.map Prod.fst

theorem Loads.skip {importer : Option Text}
    (l : Loads hooks loaded ((name, importer) :: pending))
    (known : (find? loaded name).isSome) : Loads hooks loaded pending where
  distinct := l.distinct
  whole := l.whole
  read := l.read
  closed m mem d hd := by
    rcases l.closed m mem d hd with h | h
    · exact .inl h
    · rcases List.mem_cons.mp h with rfl | h
      · exact .inl (find?_isSome_iff.mp known)
      · exact .inr h

theorem Loads.load {importer : Option Text}
    (l : Loads hooks loaded ((m.id, importer) :: pending))
    (new : ¬ (find? loaded m.id).isSome) (whole : Utf8.firstSurrogates 0 m.source = none)
    (read : IsRead hooks m o) :
    Loads hooks (m :: loaded) (pending ++
      (m.deps.filter fun d => (find? (m :: loaded) d).isNone).map fun d => (d, some m.id)) where
  distinct := List.nodup_cons.mpr ⟨mt find?_isSome_iff.mpr new, l.distinct⟩
  whole := List.forall_mem_cons.mpr ⟨whole, l.whole⟩
  read n mem := by
    rcases List.mem_cons.mp mem with rfl | mem
    · exact ⟨o, read⟩
    · exact l.read n mem
  closed n mem d hd := by
    rcases List.mem_cons.mp mem with rfl | mem
    · cases known : (find? (n :: loaded) d).isSome with
      | true => exact .inl (find?_isSome_iff.mp known)
      | false =>
          refine .inr ?_
          rw [List.map_append, List.map_map]
          refine List.mem_append_right _ (List.mem_map.mpr ⟨d, List.mem_filter.mpr ⟨hd, ?_⟩, rfl⟩)
          simpa using known
    · rcases l.closed n mem d hd with h | h
      · exact .inl (List.mem_cons_of_mem _ h)
      · rcases List.mem_cons.mp h with rfl | h
        · exact .inl List.mem_cons_self
        · rw [List.map_append]
          exact .inr (List.mem_append_left _ h)

theorem Loads.reverse (l : Loads hooks loaded []) : Loads hooks loaded.reverse [] where
  distinct := by
    rw [List.map_reverse]
    exact List.nodup_reverse.mpr l.distinct
  whole n mem := l.whole n (List.mem_reverse.mp mem)
  read n mem := l.read n (List.mem_reverse.mp mem)
  closed n mem d hd := by
    rw [List.map_reverse, List.mem_reverse]
    exact l.closed n (List.mem_reverse.mp mem) d hd

theorem loads_loadFrom {budget count : Nat} (l : Loads hooks loaded pending)
    (h : loadFrom hooks budget count loaded pending = .ok modules) :
    Loads hooks modules [] ∧ (∀ n ∈ loaded, n ∈ modules) ∧
      ∀ p ∈ pending, p.1 ∈ modules.map Module.id := by
  induction budget generalizing count loaded pending with
  | zero =>
      cases pending with
      | nil =>
          cases Except.ok.inj h
          exact ⟨l.reverse, fun n mem => List.mem_reverse.mpr mem, List.forall_mem_nil _⟩
      | cons => cases h
  | succ budget ih =>
      cases pending with
      | nil =>
          cases Except.ok.inj h
          exact ⟨l.reverse, fun n mem => List.mem_reverse.mpr mem, List.forall_mem_nil _⟩
      | cons first rest =>
          obtain ⟨name, importer⟩ := first
          rw [loadFrom] at h
          split at h
          · next known =>
              obtain ⟨hl, kept, there⟩ := ih (l.skip known) h
              refine ⟨hl, kept, List.forall_mem_cons.mpr ⟨?_, there⟩⟩
              obtain ⟨n, mem, rfl⟩ := List.mem_map.mp (find?_isSome_iff.mp known)
              exact List.mem_map_of_mem (kept n mem)
          -- A new id: what its module references is put behind what is pending.
          · next new =>
              split at h
              · cases h
              · next source load =>
                  split at h
                  · cases h
                  · next m count' read =>
                      obtain ⟨rfl, whole, o, isRead⟩ := isRead_of_read load read
                      obtain ⟨hl, kept, there⟩ := ih (l.load new whole isRead) h
                      refine ⟨hl, fun n mem => kept n (List.mem_cons_of_mem _ mem), ?_⟩
                      refine List.forall_mem_cons.mpr
                        ⟨List.mem_map_of_mem (kept m List.mem_cons_self), fun p mem => ?_⟩
                      exact there p (List.mem_append_left _ mem)

/-! ## The graph -/

/-- Modules that need only each other. -/
structure WellFormed (hooks : Hooks) (g : Graph) : Prop where
  distinct : (g.modules.map Module.id).Nodup
  whole : ∀ m ∈ g.modules, Utf8.firstSurrogates 0 m.source = none
  read : ∀ m ∈ g.modules, ∃ o, IsRead hooks m o
  closed : ∀ m ∈ g.modules, ∀ d ∈ m.deps, d ∈ g.modules.map Module.id
  entry : g.entry ∈ g.modules.map Module.id

theorem wellFormed_build {budget : Nat} {input : Text} {g : Graph}
    (h : build hooks budget input = .ok g) : g.WellFormed hooks := by
  unfold build at h
  split at h
  · cases h
  · next entry _ =>
      cases hl : loadFrom hooks budget 0 [] [(entry, none)] with
      | error e =>
          rw [hl] at h
          cases h
      | ok modules =>
          rw [hl] at h
          cases h
          have begins : Loads hooks [] [(entry, none)] :=
            ⟨List.nodup_nil, List.forall_mem_nil _, List.forall_mem_nil _, List.forall_mem_nil _⟩
          obtain ⟨loads, _, there⟩ := loads_loadFrom begins hl
          refine ⟨loads.distinct, loads.whole, loads.read, fun m mem d hd => ?_,
            there _ List.mem_cons_self⟩
          exact (loads.closed m mem d hd).resolve_right List.not_mem_nil

theorem mem_roots_iff {g : Graph} {root : Text} :
    root ∈ g.roots ↔ root = g.entry ∨ ∃ m ∈ g.modules, root ∈ m.dynamicDeps := by
  have all (l : List Module) (roots : List Text) :
      root ∈ l.foldl (fun roots m =>
          m.dynamicDeps.foldl (fun roots d => Ordered.add d roots) roots) roots ↔
        root ∈ roots ∨ ∃ m ∈ l, root ∈ m.dynamicDeps := by
    induction l generalizing roots with
    | nil => simp
    | cons m rest ih =>
        rw [List.foldl_cons, ih, Ordered.mem_foldl_add_iff, or_assoc]
        simp only [List.mem_cons, exists_eq_or_imp]
  rw [roots, all, List.mem_singleton]

theorem WellFormed.root_mem {g : Graph} (w : g.WellFormed hooks) {root : Text}
    (h : root ∈ g.roots) : root ∈ g.modules.map Module.id := by
  rcases mem_roots_iff.mp h with rfl | ⟨m, mem, hd⟩
  · exact w.entry
  · exact w.closed m mem root (List.mem_append_right _ hd)

end Graph

end Playground.Link
