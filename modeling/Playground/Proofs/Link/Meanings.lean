import Mathlib.Data.List.ProdSigma
import Playground.Proofs.Link.Exports

/-!
# What the search for an export finds

An exported name stands for a name by three rules. A module has the name itself; or
it exports under the name what another module exports under some name; or it does
not mention the name, and a star brings it from another module. A derivation may go
in circles, and a name may have several.

The search looks at one place at a time, a module and a name that it is asked for,
and it never comes back to a place on its way. No derivation is missed by this,
because one that comes back to a place has a shorter one in it. And the search ends,
because there are no more places than modules times names that are asked for. Its
run is said without fuel, so that the end is no matter of the fuel.
-/

namespace Playground.Link.Graph

open Relation

variable {modules : List Module} {g : Graph} {hooks : Hooks} {m : Module}
  {start name found : Text} {result : Option Text}

/-! ## Derivations -/

/-- What an exported name of a module stands for. -/
inductive Denotes (modules : List Module) : Text → Text → Text → Prop
  | here {start name found : Text} {m : Module} (known : find? modules start = some m)
      (own : m.exports.lookup name = some (.here found)) : Denotes modules start name found
  | there {start name next other found : Text} {m : Module}
      (known : find? modules start = some m)
      (again : m.exports.lookup name = some (.there next other))
      (denotes : Denotes modules next other found) : Denotes modules start name found
  | star {start name star found : Text} {m : Module} (known : find? modules start = some m)
      (unlisted : m.exports.lookup name = none) (plain : name ≠ text "default")
      (mem : star ∈ m.stars) (denotes : Denotes modules star name found) :
      Denotes modules start name found

/-- A module and a name that it is asked for. -/
abbrev Place := Text × Text

variable {place last : Place} {places seen all : List Place} {fuel : Nat}

/-- The places where a module takes a name from, in the order in which they are asked. -/
def takenFrom (m : Module) (name : Text) : List Place :=
  match m.exports.lookup name with
  | some (.here _) => []
  | some (.there next other) => [(next, other)]
  | none => if name = text "default" then [] else m.stars.map fun star => (star, name)

/-- A module has the name that it is asked for. -/
def Has (modules : List Module) (place : Place) (found : Text) : Prop :=
  ∃ m, find? modules place.1 = some m ∧ m.exports.lookup place.2 = some (.here found)

/-- A module takes the name that it is asked for from another place. -/
def TakesFrom (modules : List Module) (place next : Place) : Prop :=
  ∃ m, find? modules place.1 = some m ∧ next ∈ takenFrom m place.2

theorem Denotes.of_mem_takenFrom (known : find? modules start = some m)
    (mem : place ∈ takenFrom m name) (denotes : Denotes modules place.1 place.2 found) :
    Denotes modules start name found := by
  unfold takenFrom at mem
  split at mem
  · cases mem
  · next next other again =>
      rw [List.mem_singleton.mp mem] at denotes
      exact .there known again denotes
  · next unlisted =>
      split at mem
      · cases mem
      · next plain =>
          obtain ⟨star, hs, rfl⟩ := List.mem_map.mp mem
          exact .star known unlisted plain hs denotes

/-- A derivation is a path to a module that has the name. -/
theorem denotes_iff : Denotes modules start name found ↔
    ∃ last, ReflTransGen (TakesFrom modules) (start, name) last ∧ Has modules last found := by
  constructor
  · intro h
    induction h with
    | here known own => exact ⟨_, .refl, _, known, own⟩
    | there known again _ ih =>
        obtain ⟨last, path, has⟩ := ih
        refine ⟨last, .head ⟨_, known, ?_⟩ path, has⟩
        rw [takenFrom, again]
        exact List.mem_singleton_self _
    | star known unlisted plain mem _ ih =>
        obtain ⟨last, path, has⟩ := ih
        refine ⟨last, .head ⟨_, known, ?_⟩ path, has⟩
        rw [takenFrom, unlisted]
        simp only [if_neg plain]
        exact List.mem_map_of_mem mem
  · rintro ⟨last, path, m, known, own⟩
    have all {place : Place} (path : ReflTransGen (TakesFrom modules) place last) :
        Denotes modules place.1 place.2 found := by
      induction path using ReflTransGen.head_induction_on with
      | refl => exact .here known own
      | head step _ ih =>
          obtain ⟨k, hk, mem⟩ := step
          exact .of_mem_takenFrom hk mem ih
    exact all path

/-! ## Runs of the search -/

/-- A run of the search through some places, with `seen` on the way: what the first
place stands for that stands for anything. -/
inductive Asks (modules : List Module) : List Place → List Place → Option Text → Prop
  | nil {seen : List Place} : Asks modules seen [] none
  | back {seen places : List Place} {place : Place} {result : Option Text}
      (known : place ∈ seen) (later : Asks modules seen places result) :
      Asks modules seen (place :: places) result
  | here {seen places : List Place} {place : Place} {found : Text} (new : place ∉ seen)
      (has : Has modules place found) : Asks modules seen (place :: places) (some found)
  | taken {seen places : List Place} {place : Place} {m : Module} {found : Text}
      (new : place ∉ seen) (known : find? modules place.1 = some m)
      (lacks : ∀ n, ¬ Has modules place n)
      (below : Asks modules (place :: seen) (takenFrom m place.2) (some found)) :
      Asks modules seen (place :: places) (some found)
  | missed {seen places : List Place} {place : Place} {m : Module} {result : Option Text}
      (new : place ∉ seen) (known : find? modules place.1 = some m)
      (lacks : ∀ n, ¬ Has modules place n)
      (below : Asks modules (place :: seen) (takenFrom m place.2) none)
      (later : Asks modules seen places result) : Asks modules seen (place :: places) result

theorem has_iff (known : find? modules place.1 = some m) :
    Has modules place found ↔ m.exports.lookup place.2 = some (.here found) := by
  refine ⟨fun ⟨k, hk, own⟩ => ?_, fun own => ⟨m, known, own⟩⟩
  cases known.symm.trans hk
  exact own

theorem resolveFrom_of_has (new : place ∉ seen) (has : Has modules place found) :
    resolveFrom modules (fuel + 1) seen place.1 place.2 = some found := by
  obtain ⟨m, known, own⟩ := has
  rw [resolveFrom, if_neg new, known]
  simp only [own]

theorem resolveFrom_of_lacks (new : place ∉ seen) (known : find? modules place.1 = some m)
    (lacks : ∀ n, ¬ Has modules place n) :
    resolveFrom modules (fuel + 1) seen place.1 place.2 =
      (takenFrom m place.2).findSome? fun next =>
        resolveFrom modules fuel (place :: seen) next.1 next.2 := by
  rw [resolveFrom, if_neg new, known, takenFrom]
  simp only []
  cases h : m.exports.lookup place.2 with
  | none =>
      by_cases plain : place.2 = text "default"
      · simp [plain]
      · simp [plain, List.findSome?_map, Function.comp_def]
  | some binding =>
      cases binding with
      | here n => exact absurd ((has_iff known).mpr h) (lacks n)
      | there next other => simp

/-! ## The search ends -/

/-- There is fuel for every place that is not on the way. -/
structure Room (all seen : List Place) (fuel : Nat) : Prop where
  distinct : seen.Nodup
  known : seen ⊆ all
  room : all.length < seen.length + fuel

theorem Room.pos (r : Room all seen fuel) : fuel ≠ 0 := by
  rintro rfl
  have hle := (r.distinct.subperm r.known).length_le
  have hlt := r.room
  omega

theorem Room.enter (r : Room all seen (fuel + 1)) (new : place ∉ seen) (known : place ∈ all) :
    Room all (place :: seen) fuel where
  distinct := List.nodup_cons.mpr ⟨new, r.distinct⟩
  known := List.cons_subset.mpr ⟨known, r.known⟩
  room := by
    have hlt := r.room
    rw [List.length_cons]
    omega

/-- Some places are enough: whatever is asked there is taken from one of them. -/
structure Suffice (modules : List Module) (all : List Place) : Prop where
  known : ∀ place ∈ all, place.1 ∈ modules.map Module.id
  closed : ∀ place ∈ all, ∀ next, TakesFrom modules place next → next ∈ all

/-- The search is a run. The induction is on the fuel, which every place on the way
lowers, and then on the places. -/
theorem asks_findSome? (suffice : Suffice modules all) (room : Room all seen fuel)
    (sub : places ⊆ all) : Asks modules seen places
      (places.findSome? fun place => resolveFrom modules fuel seen place.1 place.2) := by
  induction fuel generalizing seen places with
  | zero => exact absurd rfl room.pos
  | succ fuel ih =>
      induction places with
      | nil => exact .nil
      | cons place rest ihRest =>
          obtain ⟨mem, sub⟩ := List.cons_subset.mp sub
          have later := ihRest sub
          rw [List.findSome?_cons]
          by_cases back : place ∈ seen
          · rw [resolveFrom, if_pos back]
            exact .back back later
          · by_cases has : ∃ n, Has modules place n
            · obtain ⟨n, has⟩ := has
              rw [resolveFrom_of_has back has]
              exact .here back has
            · have lacks := not_exists.mp has
              obtain ⟨m, known⟩ :=
                Option.isSome_iff_exists.mp (find?_isSome_iff.mpr (suffice.known place mem))
              have below : Asks modules (place :: seen) (takenFrom m place.2) _ :=
                ih (room.enter back mem) fun next hn => suffice.closed place mem next ⟨m, known, hn⟩
              rw [resolveFrom_of_lacks back known lacks]
              cases h : (takenFrom m place.2).findSome? fun next =>
                  resolveFrom modules fuel (place :: seen) next.1 next.2 with
              | none =>
                  rw [h] at below
                  exact .missed back known lacks below later
              | some n =>
                  rw [h] at below
                  exact .taken back known lacks below

/-- The names that may be asked for: the first one, and those that some module exports
again. -/
def askedNames (modules : List Module) (name : Text) : List Text :=
  name :: (modules.flatMap Module.exports).filterMap fun entry =>
    match entry.2 with
    | .here _ => none
    | .there _ other => some other

/-- All places where the search may come. -/
def allPlaces (modules : List Module) (name : Text) : List Place :=
  modules.map Module.id ×ˢ askedNames modules name

theorem length_allPlaces_lt (modules : List Module) (name : Text) :
    (allPlaces modules name).length < pathBound modules := by
  have names := List.length_filterMap_le (fun entry : Text × Binding =>
    match entry.2 with
    | .here _ => none
    | .there _ other => some other) (modules.flatMap Module.exports)
  rw [allPlaces, List.length_product, List.length_map, askedNames, List.length_cons, pathBound]
  exact Nat.lt_succ_of_le (Nat.mul_le_mul_left _ (by omega))

theorem mem_allPlaces_iff : place ∈ allPlaces modules name ↔
    place.1 ∈ modules.map Module.id ∧ place.2 ∈ askedNames modules name :=
  List.mem_product

theorem WellFormed.suffice (w : g.WellFormed hooks) (name : Text) :
    Suffice g.modules (allPlaces g.modules name) where
  known place mem := (mem_allPlaces_iff.mp mem).1
  closed := by
    rintro ⟨start, asked⟩ mem next ⟨m, known, hnext⟩
    obtain ⟨-, hasked⟩ := mem_allPlaces_iff.mp mem
    have hm := mem_of_find? known
    obtain ⟨o, read⟩ := w.read m hm
    have there {target : Text} (hd : target ∈ m.staticDeps) :
        target ∈ g.modules.map Module.id :=
      w.closed m hm target (List.mem_append_left _ hd)
    rw [mem_allPlaces_iff]
    unfold takenFrom at hnext
    split at hnext
    · cases hnext
    · next target other again =>
        rw [List.mem_singleton.mp hnext]
        have entry : (asked, .there target other) ∈ m.exports := mem_of_lookup again
        refine ⟨there ?_, List.mem_cons_of_mem _ (List.mem_filterMap.mpr
          ⟨(asked, .there target other), ?_, rfl⟩)⟩
        · exact read.lift (F := fun m =>
            (asked, .there target other) ∈ m.exports → target ∈ m.staticDeps)
            (fun _ => Module.mem_staticDeps_of_mem_exports) entry
        · exact List.mem_flatMap.mpr ⟨m, hm, entry⟩
    · split at hnext
      · cases hnext
      · obtain ⟨star, hs, rfl⟩ := List.mem_map.mp hnext
        refine ⟨there ?_, hasked⟩
        exact read.lift (F := fun m => star ∈ m.stars → star ∈ m.staticDeps)
          (fun _ => Module.mem_staticDeps_of_mem_stars) hs

theorem WellFormed.asks (w : g.WellFormed hooks) (known : start ∈ g.modules.map Module.id)
    (name : Text) : Asks g.modules [] [(start, name)] (g.resolveExport start name) := by
  have room : Room (allPlaces g.modules name) [] (pathBound g.modules) :=
    ⟨List.nodup_nil, List.nil_subset _, by simpa using length_allPlaces_lt g.modules name⟩
  have mem : (start, name) ∈ allPlaces g.modules name :=
    mem_allPlaces_iff.mpr ⟨known, List.mem_cons_self⟩
  have run := asks_findSome? (w.suffice name) room
    (List.cons_subset.mpr ⟨mem, List.nil_subset _⟩)
  rw [List.findSome?_singleton] at run
  exact run

/-! ## What the search finds -/

namespace Asks

theorem sound (h : Asks modules seen places result) (found : Text) (some : result = some found) :
    ∃ place ∈ places, Denotes modules place.1 place.2 found := by
  induction h with
  | nil => cases some
  | back _ _ ih =>
      obtain ⟨place, mem, denotes⟩ := ih some
      exact ⟨place, List.mem_cons_of_mem _ mem, denotes⟩
  | here _ has =>
      cases some
      obtain ⟨m, known, own⟩ := has
      exact ⟨_, List.mem_cons_self, .here known own⟩
  | taken _ known _ _ ih =>
      obtain ⟨next, mem, denotes⟩ := ih some
      exact ⟨_, List.mem_cons_self, .of_mem_takenFrom known mem denotes⟩
  | missed _ _ _ _ _ _ ih =>
      obtain ⟨place, mem, denotes⟩ := ih some
      exact ⟨place, List.mem_cons_of_mem _ mem, denotes⟩

/-- A place that is looked at in vain has no path to a name, unless it leads through
places on the way. -/
theorem complete (h : Asks modules seen places result) (none : result = none) (found : Text) :
    ∀ place ∈ places, place ∉ seen → ∀ last,
      ReflTransGen (fun x y => TakesFrom modules x y ∧ y ∉ seen) place last →
      ¬ Has modules last found := by
  induction h with
  | nil => exact List.forall_mem_nil _
  | back known _ ih =>
      exact List.forall_mem_cons.mpr ⟨fun new => absurd known new, ih none⟩
  | here => cases none
  | taken => cases none
  | @missed seen places place m result new known lacks _ _ below later =>
      refine List.forall_mem_cons.mpr ⟨fun _ last path => ?_, later none⟩
      -- Cut off the part of the path that comes back to the place.
      rcases reaches_without_return path with rfl | ⟨next, ⟨⟨k, hk, mem⟩, hseen⟩, away, rest⟩
      · exact lacks found
      · cases known.symm.trans hk
        refine below rfl next mem (List.not_mem_cons_of_ne_of_not_mem away hseen) last ?_
        refine rest.lift id fun x y ⟨⟨step, hy⟩, hne⟩ => ⟨step, ?_⟩
        exact List.not_mem_cons_of_ne_of_not_mem hne hy

end Asks

/-- The search for an export ends. It finds a name exactly if the export stands for
one, and what it finds is what the export stands for. -/
theorem resolves_iff_denotes {budget : Nat} {input : Text}
    (built : build hooks budget input = .ok g) (known : start ∈ g.modules.map Module.id)
    (name : Text) :
    Asks g.modules [] [(start, name)] (g.resolveExport start name) ∧
      ((∃ found, g.resolveExport start name = some found) ↔
        ∃ found, Denotes g.modules start name found) ∧
      ∀ found, g.resolveExport start name = some found → Denotes g.modules start name found := by
  have run := (wellFormed_build built).asks known name
  have sound (found : Text) (h : g.resolveExport start name = some found) :
      Denotes g.modules start name found := by
    obtain ⟨place, mem, denotes⟩ := run.sound found h
    rwa [List.mem_singleton.mp mem] at denotes
  refine ⟨run, ⟨fun ⟨found, h⟩ => ⟨found, sound found h⟩, ?_⟩, sound⟩
  rintro ⟨found, denotes⟩
  obtain ⟨last, path, has⟩ := denotes_iff.mp denotes
  rw [← Option.isSome_iff_exists, Option.isSome_iff_ne_none]
  intro none
  refine run.complete none found _ (List.mem_singleton_self _) List.not_mem_nil last ?_ has
  exact path.lift id fun x y step => ⟨step, List.not_mem_nil⟩

/-- Stars in a circle, one of which leads to a name that is exported again. -/
def starCircle : List Artifact :=
  [⟨text "input.js", text "export * from \"./a\";\n"⟩,
    ⟨text "a.js", text "export * from \"./input\";\nexport * from \"./b\";\n"⟩,
    ⟨text "b.js", text "export * from \"./a\";\nexport \x7b y as x \x7d from \"./c\";\n"⟩,
    ⟨text "c.js", text "export const y = 1;\nexport \x7b z \x7d from \"./c\";\n"⟩]

theorem resolves_in_star_circle : ∃ g, ofModules starCircle (text "input.js") = .ok g ∧
    g.entry ∈ g.modules.map Module.id ∧
    g.resolveExport g.entry (text "x") = some (text "y") ∧
    Denotes g.modules g.entry (text "x") (text "y") ∧
    ¬ ∃ found, Denotes g.modules g.entry (text "z") found := by
  have run : (ofModules starCircle (text "input.js")).toOption.map (fun g =>
      (decide (g.entry ∈ g.modules.map Module.id), g.resolveExport g.entry (text "x"),
        g.resolveExport g.entry (text "z"))) = some (true, some (text "y"), none) := by
    decide +kernel
  obtain ⟨g, built, run⟩ := Except.map_toOption_eq_some_iff.mp run
  obtain ⟨known, run⟩ := Prod.mk.inj run
  obtain ⟨hx, hz⟩ := Prod.mk.inj run
  have known := of_decide_eq_true known
  have resolves := @resolves_iff_denotes g (Hooks.ofModules starCircle) g.entry
    (budgetFor (starCircle.map Artifact.code)) (text "input.js") built known
  refine ⟨g, built, known, hx, (resolves (text "x")).2.2 _ hx, fun denotes => ?_⟩
  obtain ⟨found, h⟩ := (resolves (text "z")).2.1.mpr denotes
  rw [hz] at h
  cases h

end Playground.Link.Graph
