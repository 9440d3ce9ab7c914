import Playground.Proofs.Link.Order

/-!
# Which names a module exports, and what they stand for

A module exports the names of its own table, and through stars all names that
another module's table has, except for defaults. Both the listing and the search
for a name go from module to module along stars, and each keeps in mind where it
has been, so that it ends. That a module has been visited on the way loses no
name: whatever is reached by way of a module that is met again is reached from
there without meeting it again.

A name that is found stands for something in a module of the same chunk, because
wherever the search goes is needed at once by the module that it comes from.
-/

namespace Playground.Link.Graph

open Source

variable {modules : List Module} {fuel : Nat} {seen : List Text} {m : Module}
  {start name : Text} {g : Graph} {hooks : Hooks}

/-! ## Paths that do not come back -/

/-- Whatever is reached at all is reached without coming back to the start. -/
theorem reaches_without_return {α : Type} {r : α → α → Prop} {a c : α}
    (h : Relation.ReflTransGen r a c) :
    c = a ∨ ∃ b, r a b ∧ b ≠ a ∧ Relation.ReflTransGen (fun x y => r x y ∧ y ≠ a) b c := by
  induction h with
  | refl => exact .inl rfl
  | @tail b c _ step ih =>
      by_cases hc : c = a
      · exact .inl hc
      · rcases ih with rfl | ⟨first, begins, away, path⟩
        · exact .inr ⟨c, step, hc, .refl⟩
        · exact .inr ⟨first, begins, away, path.tail ⟨step, hc⟩⟩

/-! ## The names that are listed -/

/-- A name is in the export table of a module. -/
def Lists (modules : List Module) (start name : Text) : Prop :=
  ∃ m, find? modules start = some m ∧ name ∈ m.exports.map Prod.fst

/-- A module has a star for another one, outside of some. -/
def StarsOff (modules : List Module) (seen : List Text) (start star : Text) : Prop :=
  (∃ m, find? modules start = some m ∧ star ∈ m.stars) ∧ star ∉ seen

/-- A name other than the default is in the table of some module that stars lead
to, outside of some modules. -/
def StarLists (modules : List Module) (seen : List Text) (start name : Text) : Prop :=
  ∃ last, Relation.ReflTransGen (StarsOff modules seen) start last ∧ Lists modules last name

theorem mem_foldl_names_iff {names acc : List Text} :
    name ∈ names.foldl
        (fun acc n => if n = text "default" then acc else Ordered.add n acc) acc ↔
      name ∈ acc ∨ name ≠ text "default" ∧ name ∈ names := by
  induction names generalizing acc with
  | nil => simp
  | cons n rest ih =>
      rw [List.foldl_cons, ih, List.mem_cons]
      split
      · next h =>
          subst h
          refine or_congr_right (and_congr_right fun hne => ?_)
          exact (or_iff_right hne).symm
      · next h =>
          rw [Ordered.mem_add_iff, or_assoc]
          refine or_congr_right ⟨?_, ?_⟩
          · rintro (rfl | ⟨hne, mem⟩)
            · exact ⟨h, .inl rfl⟩
            · exact ⟨hne, .inr mem⟩
          · rintro ⟨hne, rfl | mem⟩
            · exact .inl rfl
            · exact .inr ⟨hne, mem⟩

theorem mem_foldl_stars_iff {f : Text → List Text} {stars acc : List Text} :
    name ∈ stars.foldl (fun acc star => (f star).foldl
        (fun acc n => if n = text "default" then acc else Ordered.add n acc) acc) acc ↔
      name ∈ acc ∨ name ≠ text "default" ∧ ∃ star ∈ stars, name ∈ f star := by
  induction stars generalizing acc with
  | nil => simp
  | cons star rest ih =>
      rw [List.foldl_cons, ih, mem_foldl_names_iff, or_assoc, ← and_or_left]
      simp only [List.mem_cons, exists_eq_or_imp]

theorem lists_iff (known : find? modules start = some m) :
    Lists modules start name ↔ name ∈ m.exports.map Prod.fst := by
  refine ⟨fun ⟨n, hn, mem⟩ => ?_, fun mem => ⟨m, known, mem⟩⟩
  cases known.symm.trans hn
  exact mem

/-- What stars lead to is in the module's own table, or stars lead to it from
another module and do not come back. -/
theorem starLists_iff (known : find? modules start = some m) :
    StarLists modules seen start name ↔
      name ∈ m.exports.map Prod.fst ∨
        ∃ star ∈ m.stars, star ∉ start :: seen ∧
          StarLists modules (start :: seen) star name := by
  constructor
  · rintro ⟨last, path, lists⟩
    rcases reaches_without_return path with rfl | ⟨star, ⟨⟨n, hn, mem⟩, unseen⟩, away, rest⟩
    · exact .inl ((lists_iff known).mp lists)
    · cases known.symm.trans hn
      refine .inr ⟨star, mem, List.not_mem_cons_of_ne_of_not_mem away unseen, last, ?_, lists⟩
      refine rest.lift id fun x y ⟨⟨hs, hy⟩, hne⟩ => ⟨hs, ?_⟩
      exact List.not_mem_cons_of_ne_of_not_mem hne hy
  · rintro (mem | ⟨star, mem, unseen, last, path, lists⟩)
    · exact ⟨start, .refl, (lists_iff known).mpr mem⟩
    · refine ⟨last, .head ⟨⟨m, known, mem⟩, List.not_mem_of_not_mem_cons unseen⟩ ?_, lists⟩
      exact path.lift id fun x y ⟨hs, hy⟩ => ⟨hs, List.not_mem_of_not_mem_cons hy⟩

theorem mem_namesFrom_iff (fits : Fits modules seen fuel) :
    name ∈ namesFrom modules fuel seen start ↔ start ∉ seen ∧
      (Lists modules start name ∨
        name ≠ text "default" ∧ StarLists modules seen start name) := by
  induction fuel generalizing seen start with
  | zero => exact absurd rfl fits.pos
  | succ fuel ih =>
      rw [namesFrom]
      split
      · next h => exact ⟨fun hn => absurd hn List.not_mem_nil, fun hn => absurd h hn.1⟩
      · next new =>
          rw [and_iff_right new]
          split
          · next unknown =>
              refine iff_of_false List.not_mem_nil ?_
              rintro (⟨m, hm, _⟩ | ⟨_, last, path, m, hm, mem⟩)
              · cases unknown.symm.trans hm
              · rcases path.cases_head with rfl | ⟨_, ⟨⟨n, hn, _⟩, _⟩, _⟩
                · cases unknown.symm.trans hm
                · cases unknown.symm.trans hn
          -- A known module that was not visited: its own table, and then its stars, from where
          -- the way must not come back here.
          · next m known =>
              have fits' : Fits modules (start :: seen) fuel :=
                fits.enter new (find?_isSome_iff.mp (by rw [known]; rfl))
              rw [mem_foldl_stars_iff]
              rw [lists_iff known, starLists_iff known]
              by_cases hne : name = text "default"
              · simp only [hne, ne_eq, not_true_eq_false, false_and, or_false]
              · simp only [ne_eq, hne, not_false_eq_true, true_and, ← or_assoc, or_self]
                refine or_congr_right (exists_congr fun star => and_congr_right fun _ => ?_)
                rw [ih fits']
                refine and_congr_right fun _ => ?_
                rw [and_iff_right hne]
                exact or_iff_right_of_imp fun lists => ⟨star, .refl, lists⟩

/-! ## The listing of a module -/

/-- A module lists the names of its own table, and of every star those that the
other module lists, except for the default. -/
theorem mem_exportNames_iff (known : find? g.modules start = some m) :
    name ∈ g.exportNames start ↔ name ∈ m.exports.map Prod.fst ∨
      ∃ star ∈ m.stars, name ≠ text "default" ∧ name ∈ g.exportNames star := by
  have off {first last : Text} : StarsOff g.modules [] first last ↔
      ∃ m, find? g.modules first = some m ∧ last ∈ m.stars :=
    and_iff_left List.not_mem_nil
  have listing (first : Text) : name ∈ g.exportNames first ↔ Lists g.modules first name ∨
      name ≠ text "default" ∧ StarLists g.modules [] first name :=
    (mem_namesFrom_iff (fits_nil g.modules)).trans (and_iff_right List.not_mem_nil)
  rw [listing, lists_iff known]
  constructor
  · rintro (mem | ⟨hne, last, path, lists⟩)
    · exact .inl mem
    · rcases path.cases_head with rfl | ⟨star, first, rest⟩
      · exact .inl ((lists_iff known).mp lists)
      · obtain ⟨n, hn, mem⟩ := off.mp first
        cases known.symm.trans hn
        exact .inr ⟨star, mem, hne, (listing star).mpr (.inr ⟨hne, last, rest, lists⟩)⟩
  · rintro (mem | ⟨star, mem, hne, listed⟩)
    · exact .inl mem
    · have step : StarsOff g.modules [] start star := off.mpr ⟨m, known, mem⟩
      rcases (listing star).mp listed with lists | ⟨_, last, path, lists⟩
      · exact .inr ⟨hne, star, .single step, lists⟩
      · exact .inr ⟨hne, last, .head step path, lists⟩

theorem nodup_namesFrom (tables : ∀ m ∈ modules, (m.exports.map Prod.fst).Nodup) :
    (namesFrom modules fuel seen start).Nodup := by
  have names (more acc : List Text) (h : acc.Nodup) : (more.foldl
      (fun acc n => if n = text "default" then acc else Ordered.add n acc) acc).Nodup := by
    induction more generalizing acc with
    | nil => exact h
    | cons n rest ih =>
        refine ih _ ?_
        show (if n = text "default" then acc else Ordered.add n acc).Nodup
        split
        · exact h
        · exact Ordered.nodup_add h
  cases fuel with
  | zero => exact List.nodup_nil
  | succ fuel =>
      rw [namesFrom]
      split
      · exact List.nodup_nil
      · split
        · exact List.nodup_nil
        · next m known =>
            have all (stars acc : List Text) (h : acc.Nodup) : (stars.foldl (fun acc star =>
                (namesFrom modules fuel (start :: seen) star).foldl (fun acc n =>
                  if n = text "default" then acc else Ordered.add n acc) acc) acc).Nodup := by
              induction stars generalizing acc with
              | nil => exact h
              | cons star rest ih => exact ih _ (names _ _ h)
            exact all _ _ (tables m (mem_of_find? known))

theorem WellFormed.nodup_exportNames (w : g.WellFormed hooks) : (g.exportNames start).Nodup := by
  refine nodup_namesFrom fun m mem => ?_
  obtain ⟨o, read⟩ := w.read m mem
  exact read.lift (F := fun m => (m.exports.map Prod.fst).Nodup)
    fun _ => Module.nodup_names_ofOutline

/-! ## What a name stands for -/

theorem mem_of_lookup {α : Type} {key : Text} {b : α} {table : List (Text × α)}
    (h : table.lookup key = some b) : (key, b) ∈ table := by
  obtain ⟨before, after, rfl, _⟩ := List.lookup_eq_some_iff.mp h
  exact List.mem_append_right _ List.mem_cons_self

section

-- It has a name, so that the search does not carry a proof of its own.
local instance lawfulBEqPair : LawfulBEq (Text × Text) :=
  inferInstance

/-- The search of `resolveFrom`, with the module in which the name was found. -/
def originFrom (modules : List Module) (fuel : Nat) (path : List (Text × Text))
    (start name : Text) : Option (Text × Text) :=
  match fuel with
  | 0 => none
  | fuel + 1 =>
    if (start, name) ∈ path then none
    else
      match find? modules start with
      | none => none
      | some m =>
        let path := (start, name) :: path
        match m.exports.lookup name with
        | some (.here n) => some (start, n)
        | some (.there next n) => originFrom modules fuel path next n
        | none =>
          if name = text "default" then none
          else m.stars.findSome? fun star => originFrom modules fuel path star name

end

/-- The module that an export of a module comes from, and its name there. -/
def origin (g : Graph) (start name : Text) : Option (Text × Text) :=
  originFrom g.modules (pathBound g.modules) [] start name

theorem map_snd_originFrom (modules : List Module) (fuel : Nat) (path : List (Text × Text))
    (start name : Text) : (originFrom modules fuel path start name).map Prod.snd =
      resolveFrom modules fuel path start name := by
  induction fuel generalizing path start name with
  | zero => rfl
  | succ fuel ih =>
      rw [originFrom, resolveFrom]
      by_cases again : (start, name) ∈ path
      · rw [if_pos again, if_pos again]
        rfl
      · rw [if_neg again, if_neg again]
        cases find? modules start with
        | none => rfl
        | some m =>
            simp only []
            rcases m.exports.lookup name with _ | _ | ⟨next, n⟩
            · simp only []
              by_cases default : name = text "default"
              · rw [if_pos default, if_pos default]
                rfl
              · rw [if_neg default, if_neg default, List.map_findSome?]
                exact congrArg (List.findSome? · m.stars) (funext fun star => ih _ _ _)
            · rfl
            · exact ih _ _ _

theorem resolveExport_eq (g : Graph) (start name : Text) :
    g.resolveExport start name = (g.origin start name).map Prod.snd :=
  (map_snd_originFrom _ _ _ _ _).symm

/-- An export comes from a module that is needed, and there it stands for a name of that
module. -/
theorem WellFormed.of_originFrom (w : g.WellFormed hooks) {path : List (Text × Text)}
    {found : Text × Text} (h : originFrom g.modules fuel path start name = some found) :
    Reaches g.modules start found.1 ∧ ∃ m ∈ g.modules, m.id = found.1 ∧
      ∃ exported, (exported, .here found.2) ∈ m.exports := by
  induction fuel generalizing path start name with
  | zero => cases h
  | succ fuel ih =>
      rw [originFrom] at h
      split at h
      · cases h
      · split at h
        · cases h
        · next m known =>
            have mem := mem_of_find? known
            obtain ⟨o, read⟩ := w.read m mem
            have needs {next : Text} (hn : next ∈ m.staticDeps) :
                Needs g.modules start next :=
              id_of_find? known ▸ needs_of_mem w.distinct mem hn
            simp only [] at h
            split at h
            · next n hb =>
                cases Option.some.inj h
                exact ⟨.refl, m, mem, id_of_find? known, name, mem_of_lookup hb⟩
            · next next n hb =>
                have hn : next ∈ m.staticDeps :=
                  read.lift (F := fun m => (name, .there next n) ∈ m.exports → next ∈ m.staticDeps)
                    (fun _ => Module.mem_staticDeps_of_mem_exports) (mem_of_lookup hb)
                exact (ih h).imp_left (.head (needs hn))
            · split at h
              · cases h
              · obtain ⟨star, hs, hstar⟩ := List.exists_of_findSome?_eq_some h
                have hn : star ∈ m.staticDeps :=
                  read.lift (F := fun m => star ∈ m.stars → star ∈ m.staticDeps)
                    (fun _ => Module.mem_staticDeps_of_mem_stars) hs
                exact (ih hstar).imp_left (.head (needs hn))

/-- What an exported name stands for is a name of a module that is needed. -/
theorem WellFormed.of_resolveFrom (w : g.WellFormed hooks) {path : List (Text × Text)}
    {found : Text} (h : resolveFrom g.modules fuel path start name = some found) :
    ∃ m ∈ g.modules, Reaches g.modules start m.id ∧
      ∃ exported, (exported, .here found) ∈ m.exports := by
  rw [← map_snd_originFrom] at h
  obtain ⟨place, from', rfl⟩ := Option.map_eq_some_iff.mp h
  obtain ⟨reaches, m, mem, own, there⟩ := w.of_originFrom from'
  exact ⟨m, mem, own ▸ reaches, there⟩

end Playground.Link.Graph
