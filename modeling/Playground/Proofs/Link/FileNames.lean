import Mathlib.Data.List.Induction
import Mathlib.Data.List.Nodup
import Playground.Link.Chunk
import Playground.Proofs.Text.Characters

/-!
# The file names of chunks

A chunk is named after the last part of the id of its root. Where that name is
taken, the numbers from two on are tried. Two numbers never give one name, so of
more numbers than there are names taken one is free. The search tries one number
more than there are names taken, so it finds a name that is free, and no two
chunks have the same name whatever the ids of their roots are.
-/

namespace Playground

namespace Link.Graph

variable {stem : Text} {taken : List Text}

/-- A stem with a number. -/
def numbered (stem : Text) (n : Nat) : Text :=
  stem ++ text "-" ++ Text.ofNat n ++ text ".js"

theorem numbered_injective (stem : Text) : Function.Injective (numbered stem) := by
  intro m n h
  exact Text.ofNat_injective (List.append_cancel_left (List.append_cancel_right h))

/-- If the search ends with a name that is taken, then all names that it tried are. -/
theorem numbered_mem_of_freeName_mem {fuel n : Nat} (h : freeName stem taken fuel n ∈ taken) :
    ∀ k ≤ fuel, numbered stem (n + k) ∈ taken := by
  induction fuel generalizing n with
  | zero =>
      intro k le
      rw [Nat.le_zero.mp le]
      exact h
  | succ fuel ih =>
      change (if taken.contains (numbered stem n) = true then freeName stem taken fuel (n + 1)
        else numbered stem n) ∈ taken at h
      split at h
      · next first =>
          intro k le
          cases k with
          | zero => exact List.contains_iff_mem.mp first
          | succ k =>
              rw [← Nat.add_assoc, Nat.add_right_comm]
              exact ih h k (Nat.le_of_succ_le_succ le)
      · next first => exact absurd (List.contains_iff_mem.mpr h) first

theorem freeName_not_mem (stem : Text) (taken : List Text) (n : Nat) :
    freeName stem taken taken.length n ∉ taken := by
  intro h
  have tried : (List.range (taken.length + 1)).map (fun k => numbered stem (n + k)) ⊆ taken := by
    intro name mem
    obtain ⟨k, hk, rfl⟩ := List.mem_map.mp mem
    exact numbered_mem_of_freeName_mem h k (Nat.le_of_lt_succ (List.mem_range.mp hk))
  have different : Function.Injective fun k => numbered stem (n + k) :=
    (numbered_injective stem).comp fun _ _ => Nat.add_left_cancel
  have le := (List.nodup_range.map different).length_le_of_subset tried
  rw [List.length_map, List.length_range] at le
  exact Nat.not_succ_le_self _ le

theorem exists_chunkName_eq (id : Text) (taken : List Text) : ∃ stem, chunkName id taken =
    if taken.contains (stem ++ text ".js") then freeName stem taken taken.length 2
    else stem ++ text ".js" :=
  ⟨_, rfl⟩

theorem chunkName_not_mem (id : Text) (taken : List Text) : chunkName id taken ∉ taken := by
  obtain ⟨stem, h⟩ := exists_chunkName_eq id taken
  rw [h]
  split
  · exact freeName_not_mem _ _ _
  · next free => exact mt List.contains_iff_mem.mpr free

theorem chunkNames_concat (roots : List Text) (root : Text) : chunkNames (roots ++ [root]) =
    chunkNames roots ++ [(root, chunkName root ((chunkNames roots).map Prod.snd))] :=
  List.foldl_concat ..

theorem map_fst_chunkNames (roots : List Text) : (chunkNames roots).map Prod.fst = roots := by
  induction roots using List.reverseRecOn with
  | nil => rfl
  | append_singleton roots root ih =>
      rw [chunkNames_concat, List.map_append, ih]
      rfl

theorem nodup_map_snd_chunkNames (roots : List Text) :
    ((chunkNames roots).map Prod.snd).Nodup := by
  induction roots using List.reverseRecOn with
  | nil => exact List.nodup_nil
  | append_singleton roots root ih =>
      rw [chunkNames_concat, List.map_append, List.map_singleton, ← List.concat_eq_append]
      exact (List.nodup_concat _ _).mpr ⟨chunkName_not_mem _ _, ih⟩

/-- The name of the file of a root's chunk. -/
def fileOf (names : List (Text × Text)) (root : Text) : Text :=
  (names.lookup root).getD []

theorem fileOf_of_mem {names : List (Text × Text)} {root file : Text}
    (distinct : (names.map Prod.fst).Nodup) (mem : (root, file) ∈ names) :
    fileOf names root = file := by
  induction names with
  | nil => cases mem
  | cons first rest ih =>
      obtain ⟨other, otherFile⟩ := first
      obtain ⟨new, distinct⟩ := List.nodup_cons.mp distinct
      rcases List.mem_cons.mp mem with h | mem
      · cases h
        simp [fileOf]
      · have there : root ∈ rest.map Prod.fst := List.mem_map_of_mem (f := Prod.fst) mem
        have ne : root ≠ other := fun h => new (h ▸ there)
        rw [← ih distinct mem]
        simp [fileOf, List.lookup_cons, beq_false_of_ne ne]

theorem chunkNames_eq {roots : List Text} (distinct : roots.Nodup) :
    chunkNames roots = roots.map fun root => (root, fileOf (chunkNames roots) root) := by
  have distinct := (map_fst_chunkNames roots).symm ▸ distinct
  conv_rhs => arg 2; rw [← map_fst_chunkNames roots]
  rw [List.map_map]
  refine (List.map_id _).symm.trans (List.map_congr_left fun name mem => ?_)
  exact Prod.ext rfl (fileOf_of_mem distinct mem).symm

end Link.Graph

end Playground
