import Playground.Proofs.Text.Utf8
import Playground.Text.Blank
import Playground.Text.Percent

/-!
# Where there is nothing to undo

A token that nobody has touched has no percent sign and no blank. Undoing the
escapes and trimming then leave it alone. For the escapes this takes the round
trip of UTF-8, since each run of ASCII is read as octets all the same.
-/

namespace Playground

namespace Percent

/-- The percent sign. -/
def sign : CodePoint := CodePoint.ofChar '%'

theorem escape?_of_ne {c : CodePoint} (rest : Text) (h : c ≠ sign) :
    escape? (c :: rest) = none := by
  unfold escape?
  split
  · next heq =>
      cases heq
      exact if_neg h
  · rfl

/-- Without a percent sign each code point of a run is one octet. -/
theorem octets_of_not_mem {t : Text} (h : sign ∉ t) :
    octets 0 t = t.map fun c => .ofNat c.val := by
  induction t with
  | nil => rfl
  | cons c t ih =>
      rw [octets, escape?_of_ne t (List.ne_of_not_mem_cons h).symm]
      simp only [List.map_cons]
      rw [ih (List.not_mem_of_not_mem_cons h)]

/-- ASCII is written in UTF-8 with one octet for each code point. -/
theorem encodeLoose_of_ascii {t : Text} (h : ∀ c ∈ t, c.val < 128) :
    Utf8.encodeLoose t = t.map fun c => .ofNat c.val := by
  induction t with
  | nil => rfl
  | cons c t ih =>
      have hc := h c List.mem_cons_self
      show Utf8.encodeOne c ++ Utf8.encodeLoose t = _
      rw [ih fun d hd => h d (List.mem_cons_of_mem _ hd)]
      simp only [Utf8.encodeOne]
      rw [if_pos hc]
      rfl

theorem decodeLossy_ascii {t : Text} (ascii : ∀ c ∈ t, c.val < 128) :
    Utf8.decodeLossy (t.map fun c => .ofNat c.val) = t := by
  rw [← encodeLoose_of_ascii ascii]
  refine Utf8.decodeLossy_encodeLoose fun c hc => ?_
  have := ascii c hc
  unfold CodePoint.isSurrogate
  rw [decide_eq_false (by omega), Bool.false_and]

theorem decodeLossy_octets {t : Text} (ascii : ∀ c ∈ t, c.val < 128) (h : sign ∉ t) :
    Utf8.decodeLossy (octets 0 t) = t := by
  rw [octets_of_not_mem h, decodeLossy_ascii ascii]

theorem decodeFrom_of_not_mem {run t : Text} (ascii : ∀ c ∈ run, c.val < 128)
    (hrun : sign ∉ run) (h : sign ∉ t) : decodeFrom run t = run.reverse ++ t := by
  have hread {run : Text} (ascii : ∀ c ∈ run, c.val < 128) (hrun : sign ∉ run) :
      Utf8.decodeLossy (octets 0 run.reverse) = run.reverse :=
    decodeLossy_octets (fun c hc => ascii c (List.mem_reverse.mp hc))
      (mt List.mem_reverse.mp hrun)
  induction t generalizing run with
  | nil => rw [decodeFrom, hread ascii hrun, List.append_nil]
  | cons c t ih =>
      have hc : sign ≠ c := List.ne_of_not_mem_cons h
      have ht : sign ∉ t := List.not_mem_of_not_mem_cons h
      rw [decodeFrom]
      split
      · next hascii =>
          rw [ih ?_ (List.not_mem_cons_of_ne_of_not_mem hc hrun) ht,
            List.reverse_cons, List.append_assoc]
          · rfl
          · rintro d (_ | ⟨_, hd⟩)
            · exact hascii
            · exact ascii d hd
      · rw [hread ascii hrun, ih (List.forall_mem_nil _) List.not_mem_nil ht]
        rfl

/-- A text without a percent sign stays as it is, whatever else is in it. -/
theorem decode_of_not_mem {t : Text} (h : sign ∉ t) : decode t = t :=
  decodeFrom_of_not_mem (List.forall_mem_nil _) List.not_mem_nil h

end Percent

namespace Text

theorem trim_of_not_blank {t : Text} (h : ∀ c ∈ t, c.isBlank = false) :
    t.trim = t := by
  have keeps {t : Text} (h : ∀ c ∈ t, c.isBlank = false) :
      t.dropWhile CodePoint.isBlank = t := by
    cases t with
    | nil => rfl
    | cons c t =>
        rw [List.dropWhile_cons_of_neg]
        rw [h c List.mem_cons_self]
        simp
  unfold trim trimEnd trimStart
  rw [keeps h, keeps fun c hc => h c (List.mem_reverse.mp hc), List.reverse_reverse]

end Text

end Playground
