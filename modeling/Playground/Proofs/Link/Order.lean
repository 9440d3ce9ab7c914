import Mathlib.Data.List.Perm.Subperm
import Mathlib.Logic.Relation
import Playground.Proofs.Link.Loading
import Playground.Proofs.Link.Warnings

/-!
# What a chunk holds

The modules of a chunk are those that its root reaches by what modules need at
once, each of them one time, and the root comes last. This does not depend on
the circles among them, although those decide where the search turns back.

The search is a walk in depth. Where a step of it ends, whatever the finished
modules need is finished too, or it is among the active modules, which are the
ones on the way from the root to here. At the end no module is active. The
active modules are distinct, so there is fuel for each of them.
-/

namespace Playground.Link.Graph

variable {modules : List Module} {fuel : Nat} {active done found roots : List Text}
  {name : Text}

/-- The search of `visit`, without its warnings. -/
def walk (modules : List Module) : Nat → List Text → Text → List Text → List Text
  | 0, _, _, done => done
  | fuel + 1, active, name, done =>
    if name ∈ done then done
    else if name ∈ active then done
    else
      (staticDeps modules name).foldl
        (fun done dep => walk modules fuel (name :: active) dep done) done ++ [name]

theorem visit_succ : visit modules (fuel + 1) active name done =
    if name ∈ done then pure done
    else if name ∈ active then do
      warn (text "Circular dependency through " ++ name)
      return done
    else do
      let done ← (staticDeps modules name).foldlM
        (fun done dep => visit modules fuel (name :: active) dep done) done
      return done ++ [name] :=
  rfl

theorem walk_succ : walk modules (fuel + 1) active name done =
    if name ∈ done then done
    else if name ∈ active then done
    else
      (staticDeps modules name).foldl
        (fun done dep => walk modules fuel (name :: active) dep done) done ++ [name] :=
  rfl

theorem gives_visit :
    Gives (visit modules fuel active name done) (walk modules fuel active name done) := by
  induction fuel generalizing active name done with
  | zero => exact .pure done
  | succ fuel ih =>
      rw [visit_succ, walk_succ]
      split
      · exact .pure done
      · split
        · exact (gives_warn _).bind (.pure done)
        · exact (Gives.foldlM (fun _ _ => ih) _ done).bind (.pure _)

/-- The modules of the chunk of a root, in their order. -/
def order (g : Graph) (root : Text) : List Text :=
  walk g.modules (g.modules.length + 1) [] root []

theorem gives_staticOrder (g : Graph) (root : Text) :
    Gives (g.staticOrder root) (g.order root) :=
  gives_visit

/-! ## What is reached -/

/-- A module needs another one at once. -/
def Needs (modules : List Module) (name dep : Text) : Prop :=
  dep ∈ staticDeps modules name

/-- A module needs another one, directly or not. -/
abbrev Reaches (modules : List Module) : Text → Text → Prop :=
  Relation.ReflTransGen (Needs modules)

/-- What the finished modules need is finished or on the way. -/
def Settled (modules : List Module) (active done : List Text) : Prop :=
  ∀ name ∈ done, ∀ dep, Needs modules name dep → dep ∈ done ∨ dep ∈ active

/-- There is fuel for every module that is not active. -/
structure Fits (modules : List Module) (active : List Text) (fuel : Nat) : Prop where
  distinct : active.Nodup
  known : active ⊆ modules.map Module.id
  room : modules.length < active.length + fuel

theorem Fits.pos (f : Fits modules active fuel) : fuel ≠ 0 := by
  rintro rfl
  have hle := (f.distinct.subperm f.known).length_le
  rw [List.length_map] at hle
  have hlt := f.room
  omega

theorem needs_of_mem (distinct : (modules.map Module.id).Nodup) {m : Module} (mem : m ∈ modules)
    {dep : Text} (h : dep ∈ m.staticDeps) : Needs modules m.id dep := by
  rw [Needs, staticDeps, find?_of_mem distinct mem]
  exact h

theorem mem_of_needs {dep : Text} (h : Needs modules name dep) :
    name ∈ modules.map Module.id := by
  rw [← find?_isSome_iff]
  unfold Needs staticDeps at h
  cases hf : find? modules name with
  | some => rfl
  | none =>
      rw [hf] at h
      cases h

theorem Fits.enter (f : Fits modules active (fuel + 1)) (new : name ∉ active)
    (known : name ∈ modules.map Module.id) : Fits modules (name :: active) fuel where
  distinct := List.nodup_cons.mpr ⟨new, f.distinct⟩
  known := List.cons_subset.mpr ⟨known, f.known⟩
  room := by
    have hlt := f.room
    rw [List.length_cons]
    omega

/-- What the search adds to the finished modules, starting from some ids. -/
structure Extends (modules : List Module) (active roots done found : List Text) : Prop where
  keeps : ∀ x ∈ done, x ∈ found
  fresh : ∀ x ∈ found, x ∈ done ∨ x ∉ active
  distinct : done.Nodup → found.Nodup
  reached : ∀ x ∈ found, x ∈ done ∨ ∃ r ∈ roots, Reaches modules r x
  lands : ∀ r ∈ roots, r ∈ found ∨ r ∈ active
  settled : Settled modules active done → Settled modules active found

theorem Extends.refl_of (h : ∀ r ∈ roots, r ∈ done ∨ r ∈ active) :
    Extends modules active roots done done where
  keeps _ := id
  fresh _ := .inl
  distinct := id
  reached _ := .inl
  lands := h
  settled := id

theorem Extends.cons {later : List Text} (e : Extends modules active [name] done found)
    (e' : Extends modules active roots found later) :
    Extends modules active (name :: roots) done later where
  keeps x hx := e'.keeps x (e.keeps x hx)
  fresh x hx := (e'.fresh x hx).elim (e.fresh x) .inr
  distinct h := e'.distinct (e.distinct h)
  reached x hx := by
    rcases e'.reached x hx with hx | ⟨r, hr, hreach⟩
    · refine (e.reached x hx).imp_right fun ⟨r, hr, hreach⟩ => ⟨r, ?_, hreach⟩
      exact List.mem_cons.mpr (.inl (List.mem_singleton.mp hr))
    · exact .inr ⟨r, List.mem_cons_of_mem _ hr, hreach⟩
  lands r hr := by
    rcases List.mem_cons.mp hr with rfl | hr
    · exact (e.lands r (List.mem_singleton_self r)).imp_left (e'.keeps r)
    · exact e'.lands r hr
  settled h := e'.settled (e.settled h)

/-- A module is finished behind all that it needs. -/
theorem Extends.finish (new : name ∉ done) (inactive : name ∉ active)
    (e : Extends modules (name :: active) (staticDeps modules name) done found) :
    Extends modules active [name] done (found ++ [name]) where
  keeps x hx := List.mem_append_left _ (e.keeps x hx)
  fresh x hx := by
    rcases List.mem_append.mp hx with hx | hx
    · exact (e.fresh x hx).imp_right (mt (List.mem_cons_of_mem _))
    · exact .inr (List.mem_singleton.mp hx ▸ inactive)
  distinct h := by
    have hname : name ∉ found := fun hx =>
      (e.fresh name hx).elim new fun hn => hn List.mem_cons_self
    rw [← List.concat_eq_append]
    exact (List.nodup_concat _ _).mpr ⟨hname, e.distinct h⟩
  reached x hx := by
    rcases List.mem_append.mp hx with hx | hx
    · refine (e.reached x hx).imp_right fun ⟨r, hr, hreach⟩ => ?_
      exact ⟨name, List.mem_singleton_self name, .head hr hreach⟩
    · refine .inr ⟨name, List.mem_singleton_self name, ?_⟩
      rw [List.mem_singleton.mp hx]
  lands r hr := .inl (List.mem_append_right _ hr)
  settled h x hx dep hd := by
    have hs : Settled modules (name :: active) found := e.settled fun x hx dep hd =>
      (h x hx dep hd).imp_right (List.mem_cons_of_mem _)
    have hfound : dep ∈ found ∨ dep ∈ name :: active := by
      rcases List.mem_append.mp hx with hx | hx
      · exact hs x hx dep hd
      · exact e.lands dep (List.mem_singleton.mp hx ▸ hd)
    rw [List.mem_append, List.mem_singleton]
    rcases hfound with h | h
    · exact .inl (.inl h)
    · exact (List.mem_cons.mp h).imp_left .inr

/-- The induction is on the fuel, which every module that becomes active lowers. -/
theorem extends_walk (fits : Fits modules active fuel) (name : Text) (done : List Text) :
    Extends modules active [name] done (walk modules fuel active name done) := by
  induction fuel generalizing active name done with
  | zero => exact absurd rfl fits.pos
  | succ fuel ih =>
      rw [walk_succ]
      split
      · next h =>
          exact .refl_of fun r hr => .inl (List.mem_singleton.mp hr ▸ h)
      · next new =>
          split
          · next h =>
              exact .refl_of fun r hr => .inr (List.mem_singleton.mp hr ▸ h)
          · next inactive =>
              refine Extends.finish new inactive ?_
              -- The fold is an induction of its own, because `done` grows on the way.
              have all (deps : List Text) (hdeps : ∀ d ∈ deps, Needs modules name d)
                  (done : List Text) : Extends modules (name :: active) deps done
                    (deps.foldl
                      (fun done dep => walk modules fuel (name :: active) dep done) done) := by
                induction deps generalizing done with
                | nil => exact .refl_of (List.forall_mem_nil _)
                | cons d rest ihDeps =>
                    have fits' := fits.enter inactive (mem_of_needs (hdeps d List.mem_cons_self))
                    exact (ih fits' d done).cons
                      (ihDeps (fun d hd => hdeps d (List.mem_cons_of_mem _ hd)) _)
              exact all _ (fun _ => id) done

/-! ## The order of a chunk -/

theorem fits_nil (modules : List Module) : Fits modules [] (modules.length + 1) :=
  ⟨List.nodup_nil, List.nil_subset _, by simp⟩

theorem extends_order (g : Graph) (root : Text) :
    Extends g.modules [] [root] [] (g.order root) :=
  extends_walk (fits_nil g.modules) root []

theorem nodup_order (g : Graph) (root : Text) : (g.order root).Nodup :=
  (extends_order g root).distinct List.nodup_nil

/-- A chunk holds what its root reaches, and nothing else. -/
theorem mem_order_iff {g : Graph} {root : Text} :
    name ∈ g.order root ↔ Reaches g.modules root name := by
  have e := extends_order g root
  constructor
  · intro h
    obtain ⟨r, hr, hreach⟩ := (e.reached name h).resolve_left List.not_mem_nil
    rw [List.mem_singleton.mp hr] at hreach
    exact hreach
  · intro h
    induction h with
    | refl => exact (e.lands root (List.mem_singleton_self root)).resolve_right List.not_mem_nil
    | tail _ needs ih =>
        exact (e.settled (List.forall_mem_nil _) _ ih _ needs).resolve_right List.not_mem_nil

theorem WellFormed.mem_of_reaches {hooks : Hooks} {g : Graph} (w : g.WellFormed hooks)
    {root : Text} (hr : root ∈ g.modules.map Module.id)
    (h : Reaches g.modules root name) : name ∈ g.modules.map Module.id := by
  induction h with
  | refl => exact hr
  | @tail b c _ needs _ =>
      unfold Needs staticDeps at needs
      cases hf : find? g.modules b with
      | none =>
          rw [hf] at needs
          cases needs
      | some m =>
          rw [hf] at needs
          exact w.closed m (mem_of_find? hf) c (List.mem_append_left _ needs)

end Playground.Link.Graph
