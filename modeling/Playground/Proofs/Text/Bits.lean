import Mathlib.Data.List.TakeWhile
import Playground.Proofs.Text.Base64

/-!
# What a token of base64 spells

A digit stands for six bits and an octet for eight. The digits of a token spell octets
if both are the same bits in the same order, but for fewer than six bits that are over
in the end. Nothing is asked of these bits. Signs of padding may follow, so many as the
last group has room for, or any number after digits that come in groups of four.

Reading is compared with this. It takes the digits in groups of four, and never says
anything of a bit.
-/

namespace Playground.Base64

variable {t digits : Text} {bytes : Bytes} {ds : List Nat}

/-! ## Bits -/

/-- The last bits of a number, highest first. -/
def bits : Nat → Nat → List Bool
  | 0, _ => []
  | width + 1, n => n.testBit width :: bits width n

/-- The bits of an octet. -/
def octetBits (b : UInt8) : List Bool :=
  bits 8 b.toNat

theorem length_bits (width n : Nat) : (bits width n).length = width := by
  induction width with
  | zero => rfl
  | succ width ih => rw [bits, List.length_cons, ih]

theorem bits_add (v w n : Nat) : bits (v + w) n = bits v (n / 1 <<< w) ++ bits w n := by
  rw [Nat.one_shiftLeft]
  induction v with
  | zero => rw [Nat.zero_add, bits, List.nil_append]
  | succ v ih =>
      rw [Nat.succ_add, bits, ih, bits, Nat.testBit_div_two_pow, List.cons_append]

theorem bits_mod {width w : Nat} (n : Nat) (h : width ≤ w) :
    bits width (n % 1 <<< w) = bits width n := by
  rw [Nat.one_shiftLeft]
  induction width with
  | zero => rfl
  | succ width ih =>
      rw [bits, bits, ih (Nat.le_of_succ_le h), Nat.testBit_mod_two_pow,
        decide_eq_true (Nat.lt_of_succ_le h), Bool.true_and]

/-- What stands in front of a digit has none of its bits. -/
theorem bits_behind {width d : Nat} (n : Nat) (h : width ≤ 6) (small : d < 64) :
    bits width (n * 64 + d) = bits width d := by
  have low : (n * 64 + d) % 64 = d := by omega
  exact (bits_mod (n * 64 + d) h).symm.trans (congrArg (bits width) low)

theorem bits_digit (v n : Nat) {d : Nat} (small : d < 64) :
    bits (v + 6) (n * 64 + d) = bits v n ++ bits 6 d := by
  have high : (n * 64 + d) / 64 = n := by omega
  have split : bits (v + 6) (n * 64 + d) =
      bits v ((n * 64 + d) / 64) ++ bits 6 (n * 64 + d) := bits_add v 6 _
  rw [split, high, bits_behind n (Nat.le_refl 6) small]

theorem testBit_of_bits_eq {width m n i : Nat} (same : bits width m = bits width n)
    (h : i < width) : m.testBit i = n.testBit i := by
  induction width with
  | zero => cases h
  | succ width ih =>
      obtain ⟨top, below⟩ := List.cons.inj same
      rcases Nat.lt_succ_iff_lt_or_eq.mp h with h | rfl
      · exact ih below h
      · exact top

theorem octetBits_ofNat (n : Nat) : octetBits (.ofNat n) = bits 8 n := by
  unfold octetBits
  rw [UInt8.toNat_ofNat']
  exact bits_mod n (Nat.le_refl 8)

theorem octetBits_ofNat_mod (n : Nat) : octetBits (.ofNat (n % 256)) = bits 8 n :=
  (octetBits_ofNat (n % 256)).trans (bits_mod n (Nat.le_refl 8))

theorem octetBits_inj {a b : UInt8} (same : octetBits a = octetBits b) : a = b := by
  refine UInt8.toNat_inj.mp (Nat.eq_of_testBit_eq fun i => ?_)
  by_cases h : i < 8
  · exact testBit_of_bits_eq same h
  · have bound := Nat.pow_le_pow_right (show 0 < 2 by decide) (Nat.le_of_not_lt h)
    rw [Nat.testBit_lt_two_pow (Nat.lt_of_lt_of_le a.toNat_lt bound),
      Nat.testBit_lt_two_pow (Nat.lt_of_lt_of_le b.toNat_lt bound)]

/-- Fewer than eight bits that are over do not hide an octet. -/
theorem octets_inj {as bs : Bytes} {spare spare' : List Bool} (short : spare.length < 8)
    (short' : spare'.length < 8)
    (same : as.flatMap octetBits ++ spare = bs.flatMap octetBits ++ spare') : as = bs := by
  have octet (a : UInt8) : (octetBits a).length = 8 := length_bits 8 _
  induction as generalizing bs with
  | nil =>
      cases bs with
      | nil => rfl
      | cons b bs =>
          have := congrArg List.length same
          simp only [List.flatMap_nil, List.flatMap_cons, List.nil_append, List.length_append,
            octet] at this
          omega
  | cons a as ih =>
      cases bs with
      | nil =>
          have := congrArg List.length same
          simp only [List.flatMap_nil, List.flatMap_cons, List.nil_append, List.length_append,
            octet] at this
          omega
      | cons b bs =>
          rw [List.flatMap_cons, List.flatMap_cons, List.append_assoc, List.append_assoc] at same
          obtain ⟨first, rest⟩ := List.append_inj same ((octet a).trans (octet b).symm)
          rw [octetBits_inj first, ih rest]

/-! ## Groups of digits -/

theorem bits_sixteen (n : Nat) :
    bits 16 n = octetBits (.ofNat (n / 256)) ++ octetBits (.ofNat (n % 256)) := by
  rw [octetBits_ofNat, octetBits_ofNat_mod]
  exact bits_add 8 8 n

theorem group_of_four (a : Nat) {b c d : Nat} (hb : b < 64) (hc : c < 64) (hd : d < 64) :
    let n := a * 262144 + b * 4096 + c * 64 + d
    bits 6 a ++ bits 6 b ++ bits 6 c ++ bits 6 d =
      octetBits (.ofNat (n / 65536)) ++ octetBits (.ofNat (n / 256 % 256)) ++
        octetBits (.ofNat (n % 256)) := by
  intro n
  have shape : n = ((a * 64 + b) * 64 + c) * 64 + d := by
    show a * 262144 + b * 4096 + c * 64 + d = _
    omega
  have octets : bits 24 n = bits 16 (n / 256) ++ bits 8 n := bits_add 16 8 n
  rw [bits_sixteen, Nat.div_div_eq_div_mul, ← octetBits_ofNat_mod n] at octets
  rw [← bits_digit 6 a hb, ← bits_digit 12 _ hc, ← bits_digit 18 _ hd, ← shape]
  exact octets

/-- Of a group of three digits the last two bits are spare. -/
theorem group_of_three (a : Nat) {b c : Nat} (hb : b < 64) (hc : c < 64) :
    let n := a * 1024 + b * 16 + c / 4
    bits 6 a ++ bits 6 b ++ bits 6 c =
      octetBits (.ofNat (n / 256)) ++ octetBits (.ofNat (n % 256)) ++ bits 2 c := by
  intro n
  have shape : ((a * 64 + b) * 64 + c) / 4 = n := by
    show _ = a * 1024 + b * 16 + c / 4
    omega
  have spare : bits 2 ((a * 64 + b) * 64 + c) = bits 2 c := bits_behind _ (by decide) hc
  rw [← bits_digit 6 a hb, ← bits_digit 12 _ hc, ← bits_sixteen, ← shape, ← spare]
  exact bits_add 16 2 _

/-- Of a group of two digits the last four bits are spare. -/
theorem group_of_two (a : Nat) {b : Nat} (hb : b < 64) :
    bits 6 a ++ bits 6 b = octetBits (.ofNat (a * 4 + b / 16)) ++ bits 4 b := by
  have shape : (a * 64 + b) / 16 = a * 4 + b / 16 := by omega
  have spare : bits 4 (a * 64 + b) = bits 4 b := bits_behind _ (by decide) hb
  rw [← bits_digit 6 a hb, octetBits_ofNat, ← shape, ← spare]
  exact bits_add 8 4 _

/-- What is read are the bits of the digits, up to fewer than six. -/
theorem bits_of_decodeDigits (small : ∀ d ∈ ds, d < 64) (read : decodeDigits ds = some bytes) :
    ∃ spare : List Bool, spare.length < 6 ∧
      ds.flatMap (bits 6) = bytes.flatMap octetBits ++ spare := by
  induction ds using decodeDigits.induct generalizing bytes with
  | case1 a b c d rest ih =>
      rw [decodeDigits] at read
      obtain ⟨more, readRest, rfl⟩ := Option.map_eq_some_iff.mp read
      simp only [List.forall_mem_cons] at small
      obtain ⟨-, hb, hc, hd, later⟩ := small
      obtain ⟨spare, short, same⟩ := ih later readRest
      refine ⟨spare, short, ?_⟩
      simp only [List.flatMap_cons, same, ← List.append_assoc]
      rw [← group_of_four a hb hc hd]
  | case2 a b c =>
      cases read
      simp only [List.forall_mem_cons] at small
      obtain ⟨-, hb, hc, -⟩ := small
      refine ⟨bits 2 c, by rw [length_bits]; decide, ?_⟩
      simp only [List.flatMap_cons, List.flatMap_nil, List.append_nil, ← List.append_assoc]
      exact group_of_three a hb hc
  | case3 a b =>
      cases read
      simp only [List.forall_mem_cons] at small
      obtain ⟨-, hb, -⟩ := small
      refine ⟨bits 4 b, by rw [length_bits]; decide, ?_⟩
      simp only [List.flatMap_cons, List.flatMap_nil, List.append_nil]
      exact group_of_two a hb
  | case4 => cases read
  | case5 =>
      cases read
      exact ⟨[], by decide, rfl⟩

/-- Only a digit that is alone in its group cannot be read. -/
theorem exists_decodeDigits (whole : ds.length % 4 ≠ 1) : ∃ bytes, decodeDigits ds = some bytes := by
  fun_induction decodeDigits ds with
  | case1 a b c d rest n ih =>
      obtain ⟨more, read⟩ := ih (by simp only [List.length_cons] at whole; omega)
      exact ⟨_, congrArg (Option.map _) read⟩
  | case2 => exact ⟨_, rfl⟩
  | case3 => exact ⟨_, rfl⟩
  | case4 => exact absurd rfl whole
  | case5 => exact ⟨_, rfl⟩

theorem decodeDigits_eq_some_iff (small : ∀ d ∈ ds, d < 64) : decodeDigits ds = some bytes ↔
    ∃ spare : List Bool, spare.length < 6 ∧
      ds.flatMap (bits 6) = bytes.flatMap octetBits ++ spare := by
  refine ⟨bits_of_decodeDigits small, fun ⟨spare, short, same⟩ => ?_⟩
  have length (width : Nat) {α : Type} (f : α → List Bool) (eq : ∀ a, (f a).length = width)
      (as : List α) : (as.flatMap f).length = width * as.length := by
    induction as with
    | nil => rfl
    | cons a as ih =>
        rw [List.flatMap_cons, List.length_append, eq, ih, List.length_cons, Nat.mul_succ,
          Nat.add_comm]
  have count := congrArg List.length same
  rw [List.length_append, length 6 _ (length_bits 6), length 8 octetBits fun b => length_bits 8 _]
    at count
  have whole : ds.length % 4 ≠ 1 := by omega
  obtain ⟨read, eq⟩ := exists_decodeDigits whole
  obtain ⟨spare, short', same'⟩ := bits_of_decodeDigits small eq
  rw [eq, octets_inj (by omega) (by omega) (same'.symm.trans same)]

/-! ## Tokens -/

/-- So much padding may follow so many digits. -/
def Fits (digits pads : Nat) : Prop :=
  if digits % 4 = 0 then digits = 0 → pads = 0 else digits % 4 + pads ≤ 4

/-- A token consists of digits, of either alphabet, and padding. Its digits are the bits of the
octets, and fewer than six more. -/
def Spells (t : Text) (bytes : Bytes) : Prop :=
  ∃ (digits : Text) (pads : Nat) (ds : List Nat) (spare : List Bool),
    t = digits ++ List.replicate pads pad ∧ Fits digits.length pads ∧
    digits.map value? = ds.map some ∧ spare.length < 6 ∧
    ds.flatMap (bits 6) = bytes.flatMap octetBits ++ spare

theorem mapM_value?_eq_some_iff : digits.mapM value? = some ds ↔
    digits.map value? = ds.map some := by
  induction digits generalizing ds with
  | nil =>
      rw [List.mapM_nil, List.map_nil, eq_comm (a := []), List.map_eq_nil_iff]
      exact ⟨fun h => (Option.some.inj h).symm, fun h => h ▸ rfl⟩
  | cons c digits ih =>
      rw [List.mapM_cons, List.map_cons, eq_comm (b := ds.map some), List.map_eq_cons_iff]
      simp only [Option.bind_eq_bind, Option.bind_eq_some_iff, Option.pure_def, Option.some.injEq,
        ih]
      constructor
      · rintro ⟨d, value, more, values, rfl⟩
        exact ⟨d, more, rfl, value.symm, values.symm⟩
      · rintro ⟨d, more, rfl, value, values⟩
        exact ⟨d, value.symm, more, values.symm, rfl⟩

theorem value?_lt {c : CodePoint} {d : Nat} (h : value? c = some d) : d < 64 := by
  unfold value? at h
  simp only [] at h
  split at h
  · cases h
    omega
  split at h
  · cases h
    omega
  split at h
  · cases h
    omega
  split at h
  · cases h
    decide
  split at h
  · cases h
    decide
  · cases h

theorem lt_of_map_value? (values : digits.map value? = ds.map some) : ∀ d ∈ ds, d < 64 := by
  intro d mem
  obtain ⟨c, -, h⟩ := List.mem_map.mp (values ▸ List.mem_map_of_mem (f := some) mem)
  exact value?_lt h

theorem pad_not_mem_of_map_value? (values : digits.map value? = ds.map some) : pad ∉ digits := by
  intro mem
  obtain ⟨d, -, h⟩ := List.mem_map.mp (values ▸ List.mem_map_of_mem (f := value?) mem)
  cases h

/-- The padding that is there and the padding that is added fit together if the former does. -/
theorem paddingFits_iff (count pads : Nat) :
    paddingFits count (pads + (4 - (count + pads) % 4) % 4) = true ↔ Fits count pads := by
  unfold paddingFits Fits
  split
  · next zero =>
      rw [if_pos zero, Bool.or_eq_true, beq_iff_eq, bne_iff_ne]
      omega
  · next r nonzero =>
      have : count % 4 ≠ 0 := nonzero
      rw [if_neg this, beq_iff_eq]
      omega

/-- Reading takes what stands in front of the padding, and looks whether it is followed by nothing but
padding. -/
theorem decode_eq (digits rest : Text) (head : ∀ c ∈ rest.head?, c = pad) (free : pad ∉ digits) :
    decode (digits ++ rest) =
      if (∀ c ∈ rest, c = pad) ∧ paddingFits digits.length
          (rest.length + (4 - (digits.length + rest.length) % 4) % 4) = true
      then (digits.mapM value?).bind decodeDigits else none := by
  have taken (more : Text) (head : ∀ c ∈ more.head?, c = pad) :
      (digits ++ more).takeWhile (· ≠ pad) = digits := by
    rw [List.takeWhile_append_of_pos fun c mem => by simpa using ne_of_mem_of_not_mem mem free]
    cases more with
    | nil => exact List.append_nil _
    | cons c more =>
        rw [List.takeWhile_cons_of_neg (by simpa using head c rfl), List.append_nil]
  have full : padded (digits ++ rest) = digits ++ (rest ++
      List.replicate ((4 - (digits.length + rest.length) % 4) % 4) pad) := by
    unfold padded
    rw [List.length_append, List.append_assoc]
  unfold decode
  simp only [full]
  rw [taken]
  · rw [List.drop_left]
    simp only [List.length_append, List.length_replicate, List.all_append,
      Bool.and_eq_true, List.all_eq_true, decide_eq_true_eq]
    refine if_congr (and_congr_left fun _ => ?_) rfl rfl
    exact ⟨fun h => h.1, fun h => ⟨h, fun c mem => (List.mem_replicate.mp mem).2⟩⟩
  · cases rest with
    | cons c rest => exact head
    | nil =>
        intro c mem
        exact (List.mem_replicate.mp (List.mem_of_mem_head? mem)).2

/-- A token is cut in front of the first sign of padding. -/
theorem exists_digits_append (t : Text) : ∃ digits rest : Text, t = digits ++ rest ∧
    pad ∉ digits ∧ ∀ c ∈ rest.head?, c = pad := by
  refine ⟨t.takeWhile (· ≠ pad), t.dropWhile (· ≠ pad), (List.takeWhile_append_dropWhile).symm,
    fun mem => ?_, fun c mem => ?_⟩
  · simpa using List.mem_takeWhile_imp mem
  · have := List.head?_dropWhile_not (· ≠ pad) t
    rw [Option.mem_def.mp mem] at this
    simpa using this

/-- A token is read as the octets that it spells, and not if it spells none. -/
theorem decode_eq_some_iff : decode t = some bytes ↔ Spells t bytes := by
  constructor
  · intro read
    obtain ⟨digits, rest, rfl, free, head⟩ := exists_digits_append t
    rw [decode_eq digits rest head free] at read
    split at read
    · next padding =>
        obtain ⟨ds, values, read⟩ := Option.bind_eq_some_iff.mp read
        have values := mapM_value?_eq_some_iff.mp values
        obtain ⟨spare, short, same⟩ := bits_of_decodeDigits (lt_of_map_value? values) read
        exact ⟨digits, rest.length, ds, spare, by rw [← List.eq_replicate_of_mem padding.1],
          paddingFits_iff _ _ |>.mp padding.2, values, short, same⟩
    · cases read
  · rintro ⟨digits, pads, ds, spare, rfl, fits, values, short, same⟩
    rw [decode_eq digits _ (fun c mem => (List.mem_replicate.mp (List.mem_of_mem_head? mem)).2)
      (pad_not_mem_of_map_value? values), if_pos, mapM_value?_eq_some_iff.mpr values]
    · exact (decodeDigits_eq_some_iff (lt_of_map_value? values)).mpr ⟨spare, short, same⟩
    · refine ⟨fun c mem => (List.mem_replicate.mp mem).2, ?_⟩
      rw [List.length_replicate]
      exact (paddingFits_iff _ _).mpr fits

end Playground.Base64
