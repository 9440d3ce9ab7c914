import Playground.Proofs.Link.Circles
import Playground.Proofs.Link.Meanings

/-!
# The listing of exports and the search for them

The names that a module exports are listed by going from module to module along
stars, and what a name stands for is searched by going from place to place. The
listing turns back at a module on its way and the search at a place on its way. Still
they agree, because each of them is compared with derivations, which know nothing of
either way.

Whatever stands for something is listed. The converse fails where a module exports
under a name what its target does not have, since the name is in the table all the
same. If this happens in none of the modules that stars lead to, every listed name
stands for something: the way of stars that lists it is a derivation, or a module on
it has the name itself, which then counts before its stars. So nothing is missing in
an object that holds all exports of the module, nor where a star is replaced by the
names it brings.
-/

namespace Playground.Link.Graph

open Relation

variable {modules : List Module} {seen stars acc names : List Text} {fuel : Nat} {g : Graph}
  {hooks : Hooks} {m : Module} {start name star target other importer : Text} {r : LinkedReExport}

/-! ## Runs of the listing -/

/-- Names to which a star adds those of another module, except for the default. -/
def withStar (names more : List Text) : List Text :=
  more.foldl (fun names name => if name = text "default" then names else Ordered.add name names)
    names

/-- A run of the listing through some stars, with `seen` on the way and the names
`acc` listed before. -/
inductive Collects (modules : List Module) :
    List Text → List Text → List Text → List Text → Prop
  | nil {seen acc : List Text} : Collects modules seen [] acc acc
  | back {seen stars acc names : List Text} {star : Text} (known : star ∈ seen)
      (later : Collects modules seen stars acc names) :
      Collects modules seen (star :: stars) acc names
  | enter {seen stars acc more names : List Text} {star : Text} {m : Module} (new : star ∉ seen)
      (known : find? modules star = some m)
      (below : Collects modules (star :: seen) m.stars (m.exports.map Prod.fst) more)
      (later : Collects modules seen stars (withStar acc more) names) :
      Collects modules seen (star :: stars) acc names

theorem namesFrom_of_find? (new : start ∉ seen) (known : find? modules start = some m) :
    namesFrom modules (fuel + 1) seen start =
      m.stars.foldl (fun names star => withStar names (namesFrom modules fuel (start :: seen) star))
        (m.exports.map Prod.fst) := by
  rw [namesFrom, if_neg new, known]
  rfl

/-- Stars lead to modules that are known. -/
def StarsKnown (modules : List Module) : Prop :=
  ∀ m ∈ modules, m.stars ⊆ modules.map Module.id

theorem WellFormed.starsKnown (w : g.WellFormed hooks) : StarsKnown g.modules := by
  intro m mem star hs
  obtain ⟨o, read⟩ := w.read m mem
  refine w.closed m mem star (List.mem_append_left _ ?_)
  exact read.lift (F := fun m => star ∈ m.stars → star ∈ m.staticDeps)
    (fun _ => Module.mem_staticDeps_of_mem_stars) hs

/-- The listing is a run. The induction is on the fuel, which every module on the way
lowers, and then on the stars. -/
theorem collects_foldl (closed : StarsKnown modules) (fits : Fits modules seen fuel)
    (sub : stars ⊆ modules.map Module.id) (acc : List Text) :
    Collects modules seen stars acc
      (stars.foldl (fun names star => withStar names (namesFrom modules fuel seen star)) acc) := by
  induction fuel generalizing seen stars acc with
  | zero => exact absurd rfl fits.pos
  | succ fuel ih =>
      induction stars generalizing acc with
      | nil => exact .nil
      | cons star rest ihRest =>
          obtain ⟨here, sub⟩ := List.cons_subset.mp sub
          rw [List.foldl_cons]
          by_cases back : star ∈ seen
          · rw [show namesFrom modules (fuel + 1) seen star = [] by rw [namesFrom, if_pos back]]
            exact .back back (ihRest sub acc)
          · obtain ⟨m, known⟩ := Option.isSome_iff_exists.mp (find?_isSome_iff.mpr here)
            rw [namesFrom_of_find? back known]
            exact .enter back known
              (ih (fits.enter back here) (closed m (mem_of_find? known)) _) (ihRest sub _)

theorem WellFormed.collects (w : g.WellFormed hooks) (mem : m ∈ g.modules) :
    Collects g.modules [m.id] m.stars (m.exports.map Prod.fst) (g.exportNames m.id) := by
  have known : find? g.modules m.id = some m := find?_of_mem w.distinct mem
  have fits : Fits g.modules [m.id] g.modules.length :=
    (fits_nil g.modules).enter List.not_mem_nil (List.mem_map_of_mem mem)
  rw [exportNames, namesFrom_of_find? List.not_mem_nil known]
  exact collects_foldl w.starsKnown fits (w.starsKnown m mem) _

/-! ## What is found is listed -/

theorem mem_keys_of_lookup {α : Type} {b : α} {table : List (Text × α)}
    (h : table.lookup name = some b) : name ∈ table.map Prod.fst :=
  List.mem_map.mpr ⟨_, mem_of_lookup h, rfl⟩

theorem mem_exportNames_of_denotes {found : Text} (h : Denotes g.modules start name found) :
    name ∈ g.exportNames start := by
  induction h with
  | here known own => exact (mem_exportNames_iff known).mpr (.inl (mem_keys_of_lookup own))
  | there known again => exact (mem_exportNames_iff known).mpr (.inl (mem_keys_of_lookup again))
  | star known _ plain mem _ ih =>
      exact (mem_exportNames_iff known).mpr (.inr ⟨_, mem, plain, ih⟩)

/-- The search finds a name exactly if the export stands for something. -/
theorem WellFormed.resolveExport_ne_none_iff (w : g.WellFormed hooks)
    (known : start ∈ g.modules.map Module.id) :
    g.resolveExport start name ≠ none ↔ ∃ found, Denotes g.modules start name found := by
  have run := w.asks known name
  constructor
  · intro some
    obtain ⟨found, h⟩ := Option.ne_none_iff_exists'.mp some
    obtain ⟨place, mem, denotes⟩ := run.sound found h
    rw [List.mem_singleton.mp mem] at denotes
    exact ⟨found, denotes⟩
  · rintro ⟨found, denotes⟩ none
    obtain ⟨last, path, has⟩ := denotes_iff.mp denotes
    refine run.complete none found _ (List.mem_singleton_self _) List.not_mem_nil last ?_ has
    exact path.lift id fun x y step => ⟨step, List.not_mem_nil⟩

/-! ## What is listed is found -/

/-- A module has a star for another one. -/
abbrev StarsOn (modules : List Module) (start star : Text) : Prop :=
  ∃ m, find? modules start = some m ∧ star ∈ m.stars

/-- What is exported again by a module or by those that its stars lead to stands for
something where it is taken from. -/
def ReExportsFound (g : Graph) (start : Text) : Prop :=
  ∀ k ∈ g.modules, ReflTransGen (StarsOn g.modules) start k.id →
    ∀ exported target other, (exported, .there target other) ∈ k.exports →
      g.resolveExport target other ≠ none

theorem WellFormed.denotes_of_mem_keys (w : g.WellFormed hooks) (mem : m ∈ g.modules)
    (found : ∀ exported target other, (exported, .there target other) ∈ m.exports →
      g.resolveExport target other ≠ none) (listed : name ∈ m.exports.map Prod.fst) :
    ∃ found, Denotes g.modules m.id name found := by
  have known : find? g.modules m.id = some m := find?_of_mem w.distinct mem
  cases entry : m.exports.lookup name with
  | none =>
      obtain ⟨⟨_, binding⟩, hb, rfl⟩ := List.mem_map.mp listed
      have absent := List.lookup_eq_none_iff.mp entry _ hb
      simp at absent
  | some binding =>
      cases binding with
      | here own => exact ⟨own, .here known entry⟩
      | there target other =>
          have again := mem_of_lookup entry
          obtain ⟨o, read⟩ := w.read m mem
          have needed : target ∈ m.staticDeps :=
            read.lift (F := fun m => (name, .there target other) ∈ m.exports →
              target ∈ m.staticDeps) (fun _ => Module.mem_staticDeps_of_mem_exports) again
          have there : target ∈ g.modules.map Module.id :=
            w.closed m mem target (List.mem_append_left _ needed)
          obtain ⟨last, denotes⟩ :=
            (w.resolveExport_ne_none_iff there).mp (found name target other again)
          exact ⟨last, .there known entry denotes⟩

/-- Along the stars that list a name there is a derivation, or a module has the name
itself, which counts before its stars. The induction is on the way of stars. -/
theorem WellFormed.denotes_of_mem_exportNames (w : g.WellFormed hooks)
    (resolved : g.ReExportsFound start) (listed : name ∈ g.exportNames start) : ∃ found, Denotes g.modules start name found := by
  have own {k : Text} (reach : ReflTransGen (StarsOn g.modules) start k)
      (lists : Lists g.modules k name) : ∃ found, Denotes g.modules k name found := by
    obtain ⟨m, hm, mem⟩ := lists
    obtain rfl := id_of_find? hm
    exact w.denotes_of_mem_keys (mem_of_find? hm) (resolved m (mem_of_find? hm) reach) mem
  rw [exportNames, mem_namesFrom_iff (fits_nil g.modules)] at listed
  rcases listed.2 with lists | ⟨plain, last, path, lists⟩
  · exact own .refl lists
  · have all {k : Text} (before : ReflTransGen (StarsOn g.modules) start k)
        (after : ReflTransGen (StarsOff g.modules []) k last) :
        ∃ found, Denotes g.modules k name found := by
      induction after using ReflTransGen.head_induction_on with
      | refl => exact own before lists
      | @head k star step rest ih =>
          obtain ⟨⟨m, hm, hs⟩, -⟩ := step
          cases entry : m.exports.lookup name with
          | some binding => exact own before ⟨m, hm, mem_keys_of_lookup entry⟩
          | none =>
              obtain ⟨found, denotes⟩ := ih (before.tail ⟨m, hm, hs⟩)
              exact ⟨found, .star hm entry plain hs denotes⟩
    exact all .refl path

/-! ## Nothing is missing -/

theorem Reports.bind_silent {α β : Type} {x : Warned α} {f : α → Warned β} {a : α} {b : β}
    (h : Reports x a []) (next : Reports (f a) b []) : Reports (x >>= f) b [] :=
  h.bind next

theorem Reports.mapM {α β : Type} {f : α → Warned β} {plain : α → β} {l : List α}
    (h : ∀ a ∈ l, Reports (f a) (plain a) []) : Reports (l.mapM f) (l.map plain) [] := by
  induction l with
  | nil => exact .pure []
  | cons a rest ih =>
      obtain ⟨first, later⟩ := List.forall_mem_cons.mp h
      rw [List.mapM_cons]
      exact first.bind_silent ((ih later).bind_silent (.pure _))

/-- Every name that a module lists stands for something. -/
def ListsFound (g : Graph) (start : Text) : Prop :=
  ∀ name ∈ g.exportNames start, g.resolveExport start name = some (g.localName start name)

theorem reports_localFor (found : g.resolveExport start name = some (g.localName start name)) :
    Reports (g.localFor start name importer) (g.localName start name) [] := by
  unfold localFor
  rw [found]
  exact .pure _

theorem ListsFound.reports_exportsObject (found : g.ListsFound start) (importer : Text) :
    Reports (g.exportsObject start importer) (g.objectText start) [] := by
  have entry (name : Text) (mem : name ∈ (g.exportNames start).mergeSort Text.le) : Reports
      (do return text ", " ++ Json.renderString true name ++ text ": " ++
        (← g.localFor start name importer))
      (text ", " ++ Json.renderString true name ++ text ": " ++ g.localName start name) [] :=
    (reports_localFor (found name (List.mem_mergeSort.mp mem))).bind_silent (.pure _)
  exact (Reports.mapM entry).bind_silent (.pure _)

/-- A star that a root exports again, and an object that a module exports, are replaced
without a warning. -/
theorem ListsFound.reports_reExportText (found : g.ListsFound start)
    (target : r.target = some start) (whole : ∀ pairs, r.taken ≠ .named pairs) (k : Module)
    (isRoot : Bool) : Reports (g.reExportText k isRoot r) (g.reExportLine k isRoot r) [] := by
  unfold reExportText reExportLine clauseOf
  rw [target]
  cases taken : r.taken with
  | named pairs => exact absurd taken (whole pairs)
  | object exported name =>
      refine (found.reports_exportsObject k.id).bind_silent ?_
      cases isRoot <;> exact .pure _
  | all =>
      cases isRoot with
      | false => exact .pure []
      | true =>
          simp only [Bool.not_true, Bool.false_eq_true, if_false, List.map_map]
          refine (Reports.mapM fun pair mem => ?_).bind_silent (.pure _)
          obtain ⟨n, hn, rfl⟩ := List.mem_map.mp mem
          exact (reports_localFor (found n (List.mem_of_mem_filter hn))).bind_silent (.pure _)

/-- The listing of the exports of a module ends, and no name is in it twice. It has every
name that the search finds, and the default exactly if the module itself exports it. If
what is exported again on the way is found, the search finds every name of the listing,
and nothing is missing where the listing is used. -/
theorem lists_iff_resolves {budget : Nat} {input : Text}
    (built : build hooks budget input = .ok g) (mem : m ∈ g.modules) :
    Collects g.modules [m.id] m.stars (m.exports.map Prod.fst) (g.exportNames m.id) ∧
    (g.exportNames m.id).Nodup ∧
    (∀ name found, g.resolveExport m.id name = some found → name ∈ g.exportNames m.id) ∧
    (text "default" ∈ g.exportNames m.id ↔ text "default" ∈ m.exports.map Prod.fst) ∧
    (∃ o, IsRead hooks m o ∧ (text "default" ∈ g.exportNames m.id ↔
      ∃ item ∈ o.items, text "default" ∈ Module.exposedOf (resolveIn hooks m.id) item)) ∧
    (g.ReExportsFound m.id →
      (∀ name, name ∈ g.exportNames m.id ↔ ∃ found, g.resolveExport m.id name = some found) ∧
      g.ListsFound m.id ∧
      (∀ importer, Reports (g.exportsObject m.id importer) (g.objectText m.id) []) ∧
      ∀ k isRoot r, r.target = some m.id → (∀ pairs, r.taken ≠ .named pairs) →
        Reports (g.reExportText k isRoot r) (g.reExportLine k isRoot r) []) := by
  have w := wellFormed_build built
  have known : find? g.modules m.id = some m := find?_of_mem w.distinct mem
  have there : m.id ∈ g.modules.map Module.id := List.mem_map_of_mem mem
  have listed (name found : Text) (h : g.resolveExport m.id name = some found) :
      name ∈ g.exportNames m.id := by
    obtain ⟨last, denotes⟩ := (w.resolveExport_ne_none_iff there).mp (h ▸ Option.some_ne_none _)
    exact mem_exportNames_of_denotes denotes
  have default : text "default" ∈ g.exportNames m.id ↔
      text "default" ∈ m.exports.map Prod.fst := by
    rw [mem_exportNames_iff known]
    exact or_iff_left fun ⟨_, _, plain, _⟩ => plain rfl
  obtain ⟨o, read⟩ := w.read m mem
  have exposes : text "default" ∈ m.exports.map Prod.fst ↔
      ∃ item ∈ o.items, text "default" ∈ Module.exposedOf (resolveIn hooks m.id) item :=
    read.lift (F := fun k => text "default" ∈ k.exports.map Prod.fst ↔
      ∃ item ∈ o.items, text "default" ∈ Module.exposedOf (resolveIn hooks m.id) item)
      fun _ => Module.mem_names_ofOutline
  refine ⟨w.collects mem, w.nodup_exportNames, listed, default,
    ⟨o, read, default.trans exposes⟩, fun resolved => ?_⟩
  have finds (name : Text) (h : name ∈ g.exportNames m.id) :
      ∃ found, g.resolveExport m.id name = some found :=
    Option.ne_none_iff_exists'.mp
      ((w.resolveExport_ne_none_iff there).mpr (w.denotes_of_mem_exportNames resolved h))
  have all : g.ListsFound m.id := by
    intro name h
    obtain ⟨found, hf⟩ := finds name h
    rw [localName, hf]
    rfl
  exact ⟨fun name => ⟨finds name, fun ⟨found, h⟩ => listed name found h⟩, all,
    all.reports_exportsObject, fun k isRoot r target whole =>
      all.reports_reExportText target whole k isRoot⟩

/-- Whether an export that is taken from another module is found there. -/
def finds (g : Graph) : Binding → Bool
  | .here _ => true
  | .there target other => (g.resolveExport target other).isSome

/-- Stars in a circle, over which a module has a name of its own. -/
def shadowed : List Artifact :=
  [⟨text "input.js", text "export * from \"./a\";\nexport * from \"./b\";\nexport const x = 0;\n"⟩,
    ⟨text "a.js", text "export * from \"./b\";\nexport \x7b y as z \x7d from \"./c\";\n"⟩,
    ⟨text "b.js", text "export * from \"./a\";\nexport const x = 1;\nexport default 2;\n"⟩,
    ⟨text "c.js", text "export const y = 3;\n"⟩]

theorem lists_iff_resolves_shadowed : ∃ g, ofModules shadowed (text "input.js") = .ok g ∧
    ∃ m ∈ g.modules, m.id = text "input.js" ∧ g.ReExportsFound m.id ∧
      g.exportNames m.id = [text "x", text "z"] ∧
      text "default" ∈ g.exportNames (text "./b.js") ∧
      (∃ found, g.resolveExport m.id (text "z") = some found) ∧
      Reports (g.exportsObject m.id (text "other.js")) (g.objectText m.id) [] := by
  have run : (ofModules shadowed (text "input.js")).toOption.map (fun g =>
      (g.exportNames (text "input.js"), g.exportNames (text "./b.js"),
        decide (∃ m ∈ g.modules, m.id = text "input.js"),
        g.modules.all fun k => k.exports.all fun entry => g.finds entry.2)) =
      some ([text "x", text "z"], [text "x", text "default", text "z"], true, true) := by
    decide +kernel
  obtain ⟨g, built, run⟩ := Except.map_toOption_eq_some_iff.mp run
  obtain ⟨names, run⟩ := Prod.mk.inj run
  obtain ⟨ofB, run⟩ := Prod.mk.inj run
  obtain ⟨known, again⟩ := Prod.mk.inj run
  obtain ⟨m, mem, own⟩ := of_decide_eq_true known
  have resolved : g.ReExportsFound m.id := by
    intro k hk _ exported target other entry
    have found := List.all_eq_true.mp (List.all_eq_true.mp again k hk) _ entry
    exact Option.isSome_iff_ne_none.mp found
  rw [← own] at names
  obtain ⟨-, -, -, -, -, agree⟩ := @lists_iff_resolves g (Hooks.ofModules shadowed) m
    (budgetFor (shadowed.map Artifact.code)) (text "input.js") built mem
  obtain ⟨iff, -, object, -⟩ := agree resolved
  refine ⟨g, built, m, mem, own, resolved, names, ofB ▸ by decide, (iff (text "z")).mp ?_, object _⟩
  rw [names]
  decide

end Playground.Link.Graph
