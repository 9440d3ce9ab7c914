import Mathlib.Data.List.Perm.Basic
import Playground.Link.Chunk
import Playground.Proofs.Source.Layout
import Playground.Proofs.Text.Utf8

/-!
# Replacing stretches that are apart

Stretches are replaced one by one, from the back to the front, by their places in
the source as it was. If no two of them overlap, then nothing that was replaced
before is touched, and the result is what one would write down from the front:
the source up to the first stretch, the replacement, the source up to the next
one, and so on. In particular the octets that come out are a text again.
-/

namespace Playground.Link.Edit

open Source

variable {source : Text} {e f : Edit} {edits es : List Edit} {start stop pos : Nat}

/-! ## Octets -/

theorem encodeLoose_append (s t : Text) :
    Utf8.encodeLoose (s ++ t) = Utf8.encodeLoose s ++ Utf8.encodeLoose t :=
  List.flatMap_append

theorem take_append_slice (source : Text) (le : start ≤ stop) :
    source.take start ++ source.slice start stop = source.take stop := by
  have h := List.take_append_drop start (source.take stop)
  rwa [List.take_take, Nat.min_eq_left le, List.drop_take] at h

/-- The octets of a text whose beginning is that of the source, up to a place there. -/
theorem take_octets (le : start ≤ stop) (t : Text) :
    (Utf8.encodeLoose (source.take stop ++ t)).take (octets source start) =
      Utf8.encodeLoose (source.take start) := by
  rw [← take_append_slice source le, List.append_assoc, encodeLoose_append, octets]
  exact List.take_left

theorem drop_octets (t : Text) :
    (Utf8.encodeLoose (source.take stop ++ t)).drop (octets source stop) =
      Utf8.encodeLoose t := by
  rw [encodeLoose_append, octets]
  exact List.drop_left

/-! ## From the front -/

/-- A source from a place on, with some stretches replaced. -/
def weave (source : Text) : Nat → List Edit → Text
  | pos, [] => source.drop pos
  | pos, e :: rest =>
    source.slice pos e.span.start ++ e.replacement ++ weave source e.span.stop rest

/-- Each stretch ends before the next one begins. -/
def Ordered (edits : List Edit) : Prop :=
  edits.Pairwise fun e f => e.span.stop ≤ f.span.start

/-- What stands in front of the first stretch is left as it is. -/
theorem weave_eq (first : ∀ e ∈ es.head?, pos ≤ e.span.start) :
    weave source 0 es = source.take pos ++ weave source pos es := by
  cases es with
  | nil => exact (List.take_append_drop pos source).symm
  | cons e rest =>
      have split : source.slice 0 e.span.start =
          source.take pos ++ source.slice pos e.span.start :=
        (take_append_slice source (first e rfl)).symm
      rw [weave, weave, split, List.append_assoc, List.append_assoc, List.append_assoc]

/-- One more stretch is replaced in front of others. -/
theorem apply_weave (proper : e.span.start ≤ e.span.stop)
    (first : ∀ f ∈ es.head?, e.span.stop ≤ f.span.start) :
    apply source (Utf8.encodeLoose (weave source 0 es)) e =
      Utf8.encodeLoose (weave source 0 (e :: es)) := by
  rw [apply, weave_eq first, take_octets proper, drop_octets, weave, Text.slice, List.drop_zero,
    Nat.sub_zero, encodeLoose_append, encodeLoose_append]

theorem foldl_apply (ordered : Ordered es) (proper : ∀ e ∈ es, e.span.start ≤ e.span.stop) :
    es.reverse.foldl (apply source) (Utf8.encodeLoose source) =
      Utf8.encodeLoose (weave source 0 es) := by
  rw [List.foldl_reverse]
  induction es with
  | nil => rfl
  | cons e rest ih =>
      obtain ⟨first, later⟩ := List.pairwise_cons.mp ordered
      rw [List.foldr_cons, ih later fun f mem => proper f (List.mem_cons_of_mem _ mem)]
      refine apply_weave (proper e List.mem_cons_self) fun f mem => first f ?_
      exact List.mem_of_mem_head? mem

/-! ## The order of the work -/

/-- Edits in the order of the source. -/
def inOrder (edits : List Edit) : List Edit :=
  (edits.foldr insert []).reverse

theorem insert_perm (e : Edit) (edits : List Edit) : (insert e edits).Perm (e :: edits) := by
  induction edits with
  | nil => exact .refl _
  | cons f rest ih =>
      unfold insert
      split
      · exact .refl _
      · exact (ih.cons f).trans (.swap e f rest)

theorem foldr_insert_perm (edits : List Edit) : (edits.foldr insert []).Perm edits := by
  induction edits with
  | nil => exact .refl _
  | cons e rest ih => exact (insert_perm e _).trans (ih.cons e)

theorem inOrder_perm (edits : List Edit) : (inOrder edits).Perm edits :=
  (List.reverse_perm _).trans (foldr_insert_perm edits)

theorem insert_descending (h : edits.Pairwise fun e f => f.span.start ≤ e.span.start) :
    (insert e edits).Pairwise fun e f => f.span.start ≤ e.span.start := by
  induction edits with
  | nil => exact List.pairwise_singleton _ e
  | cons f rest ih =>
      obtain ⟨first, later⟩ := List.pairwise_cons.mp h
      unfold insert
      split
      · next le =>
          refine List.pairwise_cons.mpr ⟨List.forall_mem_cons.mpr ⟨le, fun f' mem => ?_⟩, h⟩
          exact Nat.le_trans (first f' mem) le
      · next lt =>
          refine List.pairwise_cons.mpr ⟨fun f' mem => ?_, ih later⟩
          rcases List.mem_cons.mp ((insert_perm e rest).mem_iff.mp mem) with rfl | mem
          · omega
          · exact first f' mem

theorem inOrder_ascending (edits : List Edit) :
    (inOrder edits).Pairwise fun e f => e.span.start ≤ f.span.start := by
  refine List.pairwise_reverse.mpr ?_
  induction edits with
  | nil => exact List.Pairwise.nil
  | cons e rest ih => exact insert_descending ih

/-- Stretches that are apart are one behind the other. -/
theorem inOrder_ordered (proper : ∀ e ∈ edits, e.span.start < e.span.stop)
    (apart : edits.Pairwise fun e f => e.span.Apart f.span) : Ordered (inOrder edits) := by
  have perm := inOrder_perm edits
  have apart : (inOrder edits).Pairwise fun e f => e.span.Apart f.span :=
    (perm.pairwise_iff fun h => h.symm).mpr apart
  refine ((inOrder_ascending edits).and apart).imp_of_mem fun {e f} he hf ⟨le, apart⟩ => ?_
  have := proper e (perm.mem_iff.mp he)
  have := proper f (perm.mem_iff.mp hf)
  rcases apart with h | h
  · exact h
  · omega

/-- Stretches that are apart are replaced as if at once. -/
theorem applyAll_eq (proper : ∀ e ∈ edits, e.span.start < e.span.stop)
    (apart : edits.Pairwise fun e f => e.span.Apart f.span) :
    applyAll edits source = Utf8.decode (Utf8.encodeLoose (weave source 0 (inOrder edits))) := by
  have weak (e : Edit) (mem : e ∈ inOrder edits) : e.span.start ≤ e.span.stop :=
    Nat.le_of_lt (proper e ((inOrder_perm edits).mem_iff.mp mem))
  rw [applyAll, ← foldl_apply (inOrder_ordered proper apart) weak, inOrder, List.reverse_reverse]

/-! ## Text -/

theorem whole_weave (whole : source.Whole) (replaced : ∀ e ∈ es, e.replacement.Whole) :
    (weave source pos es).Whole := by
  induction es generalizing pos with
  | nil => exact whole.of_subset (List.drop_subset _ _)
  | cons e rest ih =>
      obtain ⟨first, later⟩ := List.forall_mem_cons.mp replaced
      refine ((whole.of_subset ?_).append first).append (ih later)
      exact List.Subset.trans (List.take_subset _ _) (List.drop_subset _ _)

/-- Stretches that are apart leave a text when they are replaced. -/
theorem applyAll_ok (proper : ∀ e ∈ edits, e.span.start < e.span.stop)
    (apart : edits.Pairwise fun e f => e.span.Apart f.span) (whole : source.Whole)
    (replaced : ∀ e ∈ edits, e.replacement.Whole) :
    applyAll edits source = .ok (weave source 0 (inOrder edits)) := by
  rw [applyAll_eq proper apart]
  refine Utf8.decode_encodeLoose (whole_weave whole fun e mem => ?_)
  exact replaced e ((inOrder_perm edits).mem_iff.mp mem)

end Playground.Link.Edit
