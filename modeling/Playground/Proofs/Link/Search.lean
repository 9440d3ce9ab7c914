import Mathlib.Data.List.Nodup
import Playground.Proofs.Link.Inlining

/-!
# The search for modules

What a module references depends on the hooks and on its id alone: made-up names
are numbered through all modules, but no reference contains one. So there is a
search that is described without a queue. Its next id is the first one that is
referenced and not visited yet, where the entry comes first and then what the
visited modules reference, in the order of the visits.

The search is breadth-first. A path from the entry to an id that is not visited
leaves the visited ids somewhere, and the module that it leaves them from was
visited no sooner than the one that the next id comes from. So no id is visited
before one that is nearer to the entry.
-/

namespace Playground.Link.Graph

open Source

variable {hooks : Hooks} {entry name : Text} {importer : Option Text} {ids : List Text}
  {m : Module} {o : Outline}

/-! ## The search -/

/-- The outline of the module with an id, if the module can be used. -/
def outlineOf? (hooks : Hooks) (name : Text) : Option Outline :=
  match hooks.load name with
  | none => none
  | some source =>
    if (Utf8.firstSurrogates 0 source).isSome then none else outline? source.toCharsD

/-- The ids that the module with an id references, statically and then dynamically. -/
def referencesOf (hooks : Hooks) (name : Text) : List Text :=
  match outlineOf? hooks name with
  | none => []
  | some o =>
    Ordered.firsts (o.items.filterMap (Module.needOf (resolveIn hooks name))) ++
      Ordered.firsts (o.sites.filterMap fun site => resolveIn hooks name site.source)

/-- The entry, and all references of some modules with the module that each comes from. -/
def referencesFrom (hooks : Hooks) (entry : Text) (ids : List Text) : Pending :=
  (entry, none) :: ids.flatMap fun name => (referencesOf hooks name).map fun d => (d, some name)

/-- The first id that is referenced and not visited, with the module that references it first. -/
def next? (hooks : Hooks) (entry : Text) (ids : List Text) : Option (Text × Option Text) :=
  (referencesFrom hooks entry ids).find? fun r => !ids.contains r.1

/-- The ids are visited in this order, and the modules of all of them can be used. -/
inductive Visits (hooks : Hooks) (entry : Text) : List Text → Prop
  | begin : Visits hooks entry []
  | next {ids : List Text} {name : Text} {importer : Option Text} {o : Outline}
      (before : Visits hooks entry ids) (first : next? hooks entry ids = some (name, importer))
      (usable : outlineOf? hooks name = some o) : Visits hooks entry (ids ++ [name])

/-- An id is referenced from the entry, over so many references. -/
inductive ReachedIn (hooks : Hooks) (entry : Text) : Nat → Text → Prop
  | entry : ReachedIn hooks entry 0 entry
  | step {n : Nat} {name d : Text} (before : ReachedIn hooks entry n name)
      (reference : d ∈ referencesOf hooks name) : ReachedIn hooks entry (n + 1) d

/-- An id is not farther from the entry than another. -/
def Nearer (hooks : Hooks) (entry a b : Text) : Prop :=
  ∀ n, ReachedIn hooks entry n b → ∃ k ≤ n, ReachedIn hooks entry k a

/-- Why the module with an id cannot be used. -/
def complaint? (hooks : Hooks) (name : Text) (importer : Option Text) : Option BundleFailure :=
  match hooks.load name with
  | none => some (.unresolved name importer)
  | some source =>
    match Utf8.firstSurrogates 0 source with
    | some bad => some (.unencodable bad)
    | none => if (outline? source.toCharsD).isNone then some (.badSource name) else none

/-- A module is read from its outline, or there is no outline and the reason is told. -/
theorem read_spec {source : Text} (load : hooks.load name = some source) (count : Nat) :
    (∃ o m count', outlineOf? hooks name = some o ∧
      Module.read hooks name source count = .ok (m, count') ∧ m.id = name ∧
      m.deps = referencesOf hooks name) ∨
    ∃ e, outlineOf? hooks name = none ∧ Module.read hooks name source count = .error e ∧
      ∀ importer, complaint? hooks name importer = some e := by
  cases hbad : Utf8.firstSurrogates 0 source with
  | some bad =>
      right
      refine ⟨.unencodable bad, by simp [outlineOf?, load, hbad], by simp [Module.read, hbad], ?_⟩
      intro importer
      simp [complaint?, load, hbad]
  | none =>
      cases ho : outline? source.toCharsD with
      | none =>
          right
          refine ⟨.badSource name, by simp [outlineOf?, load, hbad, ho],
            by simp [Module.read, hbad, ho], ?_⟩
          intro importer
          simp [complaint?, load, hbad, ho]
      | some o =>
          have usable : outlineOf? hooks name = some o := by simp [outlineOf?, load, hbad, ho]
          left
          refine ⟨o, _, _, usable, by rw [Module.read, hbad, ho], Module.id_ofOutline, ?_⟩
          rw [Module.deps, Module.staticDeps_ofOutline, Module.dynamicDeps_ofOutline,
            referencesOf, usable]
          rfl

theorem complaint?_of_declined (load : hooks.load name = none) (importer : Option Text) :
    complaint? hooks name importer = some (.unresolved name importer) := by
  simp [complaint?, load]

theorem referencesFrom_append (hooks : Hooks) (entry : Text) (ids : List Text) (name : Text) :
    referencesFrom hooks entry (ids ++ [name]) = referencesFrom hooks entry ids ++
      (referencesOf hooks name).map fun d => (d, some name) := by
  simp [referencesFrom]

theorem mem_referencesFrom_iff {d : Text} :
    (d, importer) ∈ referencesFrom hooks entry ids ↔ (d = entry ∧ importer = none) ∨
      ∃ name ∈ ids, d ∈ referencesOf hooks name ∧ importer = some name := by
  rw [referencesFrom, List.mem_cons, List.mem_flatMap]
  constructor
  · rintro (h | ⟨name, mem, h⟩)
    · exact .inl (Prod.mk.inj h)
    · obtain ⟨x, hx, he⟩ := List.mem_map.mp h
      cases he
      exact .inr ⟨name, mem, hx, rfl⟩
  · rintro (⟨rfl, rfl⟩ | ⟨name, mem, hd, rfl⟩)
    · exact .inl rfl
    · exact .inr ⟨name, mem, List.mem_map_of_mem hd⟩

theorem not_mem_of_next? (first : next? hooks entry ids = some (name, importer)) : name ∉ ids := by
  simpa using List.find?_some first

theorem mem_of_next? (first : next? hooks entry ids = some (name, importer)) :
    (name, importer) ∈ referencesFrom hooks entry ids :=
  List.mem_of_find?_eq_some first

/-- When nothing is next, every reference has been visited. -/
theorem next?_eq_none_iff : next? hooks entry ids = none ↔
    entry ∈ ids ∧ ∀ name ∈ ids, ∀ d ∈ referencesOf hooks name, d ∈ ids := by
  rw [next?, List.find?_eq_none]
  constructor
  · intro h
    refine ⟨by simpa using h (entry, none) List.mem_cons_self, ?_⟩
    intro name mem d hd
    simpa using h (d, some name) (mem_referencesFrom_iff.mpr (.inr ⟨name, mem, hd, rfl⟩))
  · rintro ⟨hentry, closed⟩ ⟨d, importer⟩ mem
    rcases mem_referencesFrom_iff.mp mem with ⟨rfl, -⟩ | ⟨name, hname, hd, -⟩
    · simpa using hentry
    · simpa using closed name hname d hd

namespace Visits

theorem nodup (v : Visits hooks entry ids) : ids.Nodup := by
  induction v with
  | begin => exact List.nodup_nil
  | next before first usable ih =>
      rw [← List.concat_eq_append]
      exact (List.nodup_concat _ _).mpr ⟨not_mem_of_next? first, ih⟩

/-- What is visited, and what comes next, is referenced from the entry. -/
theorem reached_of_mem (v : Visits hooks entry ids) (mem : name ∈ ids) :
    ∃ n, ReachedIn hooks entry n name := by
  induction v generalizing name with
  | begin => cases mem
  | next before first usable ih =>
      rcases List.mem_append.mp mem with mem | mem
      · exact ih mem
      · rw [List.mem_singleton.mp mem]
        rcases mem_referencesFrom_iff.mp (mem_of_next? first) with ⟨rfl, -⟩ | ⟨r, hr, hd, -⟩
        · exact ⟨0, .entry⟩
        · obtain ⟨n, hn⟩ := ih hr
          exact ⟨n + 1, hn.step hd⟩

end Visits

/-- A path to an id that is not visited leaves the visited ids somewhere. -/
theorem exists_reference_of_not_mem {n : Nat} (reached : ReachedIn hooks entry n name)
    (new : name ∉ ids) : entry ∉ ids ∨
      ∃ k < n, ∃ r ∈ ids, ReachedIn hooks entry k r ∧ ∃ d ∈ referencesOf hooks r, d ∉ ids := by
  induction reached with
  | entry => exact .inl new
  | @step n r d before reference ih =>
      by_cases hr : r ∈ ids
      · exact .inr ⟨n, Nat.lt_succ_self n, r, hr, before, d, reference, new⟩
      · rcases ih hr with h | ⟨k, hk, r, hr, hit⟩
        · exact .inl h
        · exact .inr ⟨k, by omega, r, hr, hit⟩

/-- When the search is over, everything that is referenced from the entry is visited. -/
theorem mem_of_reachedIn {n : Nat} (complete : next? hooks entry ids = none)
    (reached : ReachedIn hooks entry n name) : name ∈ ids := by
  obtain ⟨hentry, closed⟩ := next?_eq_none_iff.mp complete
  by_contra new
  rcases exists_reference_of_not_mem reached new with h | ⟨k, hk, r, hr, -, d, hd, hnot⟩
  · exact h hentry
  · exact hnot (closed r hr d hd)

theorem Nearer.refl (hooks : Hooks) (entry a : Text) : Nearer hooks entry a a :=
  fun n hn => ⟨n, Nat.le_refl n, hn⟩

end Playground.Link.Graph
