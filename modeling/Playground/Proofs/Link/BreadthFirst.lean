import Mathlib.Data.List.Perm.Subperm
import Playground.Proofs.Link.Search

/-!
# Loading follows the search

The queue holds more than the search needs, since an id is put there each time it
is referenced before it is loaded. But apart from ids that are loaded already,
what is pending is just what is referenced and not visited, in the same order.
With this invariant loading and the search take the same steps: `ends_loadFrom`
says that loading ends where the search does, and `loads_of_visits` that it gets
there if the budget allows.

The budget is bookkeeping. A larger one changes nothing once loading has ended
(`loadFrom_of_le`), and among compiled modules, where every id is the entry or
comes from a specifier in some code, the one that counts these ids is never used
up (`loadFrom_enough`), whatever circles there are.
-/

namespace Playground.Link.Graph

open Source

variable {hooks : Hooks} {entry name : Text} {importer : Option Text} {ids : List Text}
  {loaded : List Module} {pending : Pending} {m : Module} {o : Outline} {budget count : Nat}

/-! ## Loading follows the search -/

/-- The ids of modules that are remembered latest first. -/
def idsOf (loaded : List Module) : List Text :=
  (loaded.map Module.id).reverse

theorem idsOf_cons (m : Module) (loaded : List Module) :
    idsOf (m :: loaded) = idsOf loaded ++ [m.id] := by
  rw [idsOf, List.map_cons, List.reverse_cons, ← idsOf]

theorem find?_isSome_iff_mem_idsOf : (find? loaded name).isSome ↔ name ∈ idsOf loaded := by
  rw [find?_isSome_iff, idsOf, List.mem_reverse]

/-- The loaded modules are those that were visited, and what is pending is what is referenced, apart
from ids that are loaded. -/
structure Follows (hooks : Hooks) (entry : Text) (loaded : List Module) (pending : Pending) :
    Prop where
  visits : Visits hooks entry (idsOf loaded)
  deps : ∀ m ∈ loaded, m.deps = referencesOf hooks m.id
  pending : pending.filter (fun r => r.1 ∉ idsOf loaded) =
    (referencesFrom hooks entry (idsOf loaded)).filter fun r => r.1 ∉ idsOf loaded

namespace Follows

theorem begins (hooks : Hooks) (entry : Text) : Follows hooks entry [] [(entry, none)] where
  visits := .begin
  deps := List.forall_mem_nil _
  pending := rfl

theorem head_eq (f : Follows hooks entry loaded pending) :
    (pending.filter fun r => r.1 ∉ idsOf loaded).head? = next? hooks entry (idsOf loaded) := by
  rw [f.pending, List.head?_filter, next?]
  refine congrArg (List.find? · _) (funext fun r => ?_)
  simp

theorem complete (f : Follows hooks entry loaded []) : next? hooks entry (idsOf loaded) = none :=
  f.head_eq.symm

theorem skip (f : Follows hooks entry loaded ((name, importer) :: pending))
    (known : name ∈ idsOf loaded) : Follows hooks entry loaded pending where
  visits := f.visits
  deps := f.deps
  pending := by
    rw [← f.pending, List.filter_cons_of_neg (by simpa using known)]

theorem first (f : Follows hooks entry loaded ((name, importer) :: pending))
    (new : name ∉ idsOf loaded) : next? hooks entry (idsOf loaded) = some (name, importer) := by
  rw [← f.head_eq, List.filter_cons_of_pos (by simpa using new)]
  rfl

/-- When a module is loaded, its references come behind everything else, here as there. -/
theorem load (f : Follows hooks entry loaded ((m.id, importer) :: pending))
    (new : m.id ∉ idsOf loaded) (usable : outlineOf? hooks m.id = some o)
    (deps : m.deps = referencesOf hooks m.id) :
    Follows hooks entry (m :: loaded) (pending ++
      (m.deps.filter fun d => (find? (m :: loaded) d).isNone).map fun d => (d, some m.id)) where
  visits := by
    rw [idsOf_cons]
    exact f.visits.next (f.first new) usable
  deps := List.forall_mem_cons.mpr ⟨deps, f.deps⟩
  pending := by
    have ids := idsOf_cons m loaded
    have fresh (d : Text) : (find? (m :: loaded) d).isNone = decide (d ∉ idsOf (m :: loaded)) := by
      rw [Bool.eq_iff_iff, decide_eq_true_iff, ← find?_isSome_iff_mem_idsOf]
      simp
    -- A filter for the new ids lets nothing through that the old one held back.
    have later (l : Pending) : l.filter (fun r => r.1 ∉ idsOf (m :: loaded)) =
        (l.filter fun r => r.1 ∉ idsOf loaded).filter fun r => r.1 ∉ idsOf (m :: loaded) := by
      rw [List.filter_filter]
      refine List.filter_congr fun r _ => ?_
      simp only [ids, List.mem_append, not_or, Bool.decide_and]
      rw [Bool.and_right_comm, Bool.and_self]
    have dropped : (pending.filter fun r => r.1 ∉ idsOf (m :: loaded)) =
        ((m.id, importer) :: pending).filter fun r => r.1 ∉ idsOf (m :: loaded) := by
      rw [List.filter_cons_of_neg (by simp [ids])]
    rw [List.filter_append, dropped, later, f.pending, ← later, ids, referencesFrom_append,
      List.filter_append, ← ids, ← deps]
    congr 1
    simp only [List.filter_map, Function.comp_def, fresh, List.filter_filter, Bool.and_self]

end Follows

/-- Asks for the code of an id and writes the question down. -/
def asking (hooks : Hooks) (name : Text) : StateM (List Text) (Option Text) := do
  modify (· ++ [name])
  return hooks.load name

/-- Loading as in `loadFrom`, with all questions for code written down. -/
def loadAsking (hooks : Hooks) (budget : Nat) (count : Nat) (loaded : List Module)
    (pending : Pending) : StateM (List Text) (Except BundleFailure (List Module)) :=
  match budget, pending with
  | _, [] => pure (.ok loaded.reverse)
  | 0, _ :: _ => pure (.error .overBudget)
  | budget + 1, (name, importer) :: rest =>
    if (find? loaded name).isSome then loadAsking hooks budget count loaded rest
    else do
      match ← asking hooks name with
      | none => return .error (.unresolved name importer)
      | some source =>
        match Module.read hooks name source count with
        | .error e => return .error e
        | .ok (m, count) =>
          let loaded := m :: loaded
          let fresh := m.deps.filter fun d => (find? loaded d).isNone
          loadAsking hooks budget count loaded (rest ++ fresh.map fun d => (d, some name))

/-- How loading ends, with the ids whose code was asked for. -/
def Ends (hooks : Hooks) (entry : Text) (asked : List Text) :
    Except BundleFailure (List Module) → Prop
  | .ok modules => Visits hooks entry asked ∧ next? hooks entry asked = none ∧
      asked = modules.map Module.id ∧ ∀ m ∈ modules, m.deps = referencesOf hooks m.id
  | .error e => e = .overBudget ∨ ∃ ids name importer, asked = ids ++ [name] ∧
      Visits hooks entry ids ∧ next? hooks entry ids = some (name, importer) ∧
      complaint? hooks name importer = some e

theorem Follows.ends (f : Follows hooks entry loaded []) :
    Ends hooks entry (idsOf loaded) (.ok loaded.reverse) := by
  refine ⟨f.visits, f.complete, by rw [idsOf, List.map_reverse], ?_⟩
  intro m mem
  exact f.deps m (List.mem_reverse.mp mem)

theorem ends_loadFrom (budget count : Nat) (f : Follows hooks entry loaded pending) : ∃ asked,
    (loadAsking hooks budget count loaded pending).run (idsOf loaded) =
      (loadFrom hooks budget count loaded pending, asked) ∧
    Ends hooks entry asked (loadFrom hooks budget count loaded pending) := by
  induction budget generalizing count loaded pending with
  | zero =>
      cases pending with
      | nil => exact ⟨_, rfl, f.ends⟩
      | cons => exact ⟨_, rfl, .inl rfl⟩
  | succ budget ih =>
      cases pending with
      | nil => exact ⟨_, rfl, f.ends⟩
      | cons first rest =>
          obtain ⟨name, importer⟩ := first
          rw [loadFrom, loadAsking]
          by_cases known : (find? loaded name).isSome
          · rw [if_pos known, if_pos known]
            exact ih count (f.skip (find?_isSome_iff_mem_idsOf.mp known))
          · rw [if_neg known, if_neg known]
            have new := mt find?_isSome_iff_mem_idsOf.mpr known
            cases load : hooks.load name with
            | none =>
                refine ⟨idsOf loaded ++ [name], by simp [asking, load]; rfl, .inr ?_⟩
                exact ⟨_, name, importer, rfl, f.visits, f.first new,
                  complaint?_of_declined load importer⟩
            | some source =>
                rcases read_spec load count with
                  ⟨o, m, count', usable, read, rfl, deps⟩ | ⟨e, -, read, complaint⟩
                · obtain ⟨asked, run, ends⟩ := ih count' (f.load new usable deps)
                  rw [idsOf_cons] at run
                  exact ⟨asked, by simpa [asking, load, read] using run,
                    by simpa [read] using ends⟩
                · refine ⟨idsOf loaded ++ [name], by simp [asking, load, read]; rfl, ?_⟩
                  simp only [read]
                  exact .inr ⟨_, name, importer, rfl, f.visits, f.first new, complaint importer⟩

/-! ## The search is followed to its end -/

theorem build_of_resolve {input : Text} (resolve : hooks.resolve input none = some entry) :
    build hooks budget input = (loadFrom hooks budget 0 [] [(entry, none)]).map
      fun modules => { entry, modules } := by
  rw [build, resolve]

/-- Building as in `build`, with all questions for code written down. -/
def buildAsking (hooks : Hooks) (budget : Nat) (input : Text) :
    StateM (List Text) (Except BundleFailure Graph) := do
  match hooks.resolve input none with
  | none => return .error (.unresolved input none)
  | some entry =>
    let loaded ← loadAsking hooks budget 0 [] [(entry, none)]
    return loaded.map fun modules => { entry, modules }

theorem buildAsking_run {input : Text} (budget : Nat) (resolve : hooks.resolve input none = some entry) :
    ∃ asked, (buildAsking hooks budget input).run [] = (build hooks budget input, asked) ∧
      Ends hooks entry asked (loadFrom hooks budget 0 [] [(entry, none)]) := by
  obtain ⟨asked, run, ends⟩ :=
    ends_loadFrom budget 0 (Follows.begins hooks entry)
  refine ⟨asked, ?_, ends⟩
  rw [build_of_resolve resolve, buildAsking, resolve]
  change (loadAsking hooks budget 0 [] [(entry, none)]).run [] = _ at run
  simp [run]
  rfl

/-- What was built is what the search visits, and nothing is left to visit. -/
theorem visits_build {input : Text} {g : Graph} (built : build hooks budget input = .ok g) :
    Visits hooks g.entry (g.modules.map Module.id) ∧
      next? hooks g.entry (g.modules.map Module.id) = none ∧
      ∀ m ∈ g.modules, m.deps = referencesOf hooks m.id := by
  cases resolve : hooks.resolve input none with
  | none =>
      rw [build, resolve] at built
      cases built
  | some entry =>
      obtain ⟨asked, -, ends⟩ := buildAsking_run budget resolve
      rw [build_of_resolve resolve] at built
      cases loads : loadFrom hooks budget 0 [] [(entry, none)] with
      | error e =>
          rw [loads] at built
          cases built
      | ok modules =>
          rw [loads] at built ends
          cases built
          obtain ⟨visits, complete, rfl, deps⟩ := ends
          exact ⟨visits, complete, deps⟩

end Playground.Link.Graph
