import Playground.Text.Base64

/-!
# What is written in base64 is read back

Writing has two parts: octets are regrouped into values of six bits, and each
value has a digit. `values` is the first part alone, so that the two can be
undone one after the other. Padding comes in between. Reading fills a token up
before it looks at it, so it does not matter how much of the padding is there.
-/

namespace Playground

/-- The characters that a token is written in: the letters, the decimal digits,
the hyphen and the underscore. -/
def CodePoint.isLinkDigit (c : CodePoint) : Bool :=
  (65 ≤ c.val && c.val ≤ 90) || (97 ≤ c.val && c.val ≤ 122) ||
    (48 ≤ c.val && c.val ≤ 57) || c.val == 45 || c.val == 95

namespace Base64

variable {n : Nat} {t : Text}

/-! ## Digits -/

theorem value?_digit (h : n < 64) : value? (digit n) = some n := by
  revert n
  decide

theorem isLinkDigit_digit (n : Nat) : (digit n).isLinkDigit = true := by
  by_cases h : n < 62
  · revert n
    decide
  · unfold digit
    rw [dif_neg (by omega), dif_neg (by omega), dif_neg h]
    split <;> rfl

theorem mapM_value?_digit {ns : List Nat} (h : ∀ n ∈ ns, n < 64) :
    (ns.map digit).mapM value? = some ns := by
  induction ns with
  | nil => rfl
  | cons n ns ih =>
      rw [List.map_cons, List.mapM_cons, value?_digit (h n List.mem_cons_self),
        ih fun m hm => h m (List.mem_cons_of_mem _ hm)]
      rfl

/-! ## Groups -/

/-- The values of the digits that octets are written with. -/
def values : Bytes → List Nat
  | a :: b :: c :: rest =>
    let n := a.toNat * 65536 + b.toNat * 256 + c.toNat
    n / 262144 :: n / 4096 % 64 :: n / 64 % 64 :: n % 64 :: values rest
  | [a, b] =>
    let n := a.toNat * 256 + b.toNat
    [n / 1024, n / 16 % 64, n % 16 * 4]
  | [a] => [a.toNat / 4, a.toNat % 4 * 16]
  | [] => []

theorem encode_eq_map (bytes : Bytes) : encode bytes = (values bytes).map digit := by
  fun_induction values bytes with
  | case1 a b c rest n ih =>
      rw [encode, ih]
      rfl
  | case2 => rfl
  | case3 => rfl
  | case4 => rfl

theorem lt_of_mem_values (bytes : Bytes) (h : n ∈ values bytes) : n < 64 := by
  fun_induction values bytes with
  | case1 a b c rest m ih =>
      have ha := a.toNat_lt
      have hb := b.toNat_lt
      have hc := c.toNat_lt
      simp only [List.mem_cons] at h
      rcases h with rfl | rfl | rfl | rfl | h
      · omega
      · omega
      · omega
      · omega
      · exact ih h
  | case2 a b m =>
      have ha := a.toNat_lt
      have hb := b.toNat_lt
      simp only [List.mem_cons, List.not_mem_nil, or_false] at h
      omega
  | case3 a =>
      have ha := a.toNat_lt
      simp only [List.mem_cons, List.not_mem_nil, or_false] at h
      omega
  | case4 => cases h

/-- The octets of a group of three or fewer come back from the values. -/
theorem decodeDigits_values (bytes : Bytes) :
    decodeDigits (values bytes) = some bytes := by
  have octet (a : UInt8) (n : Nat) (h : n = a.toNat) : UInt8.ofNat n = a := by
    rw [h, UInt8.ofNat_toNat]
  fun_induction values bytes with
  | case1 a b c rest m ih =>
      have ha := a.toNat_lt
      have hb := b.toNat_lt
      have hc := c.toNat_lt
      rw [decodeDigits, ih]
      simp only [Option.map_some]
      rw [octet a _ (by omega), octet b _ (by omega), octet c _ (by omega)]
  | case2 a b m =>
      have ha := a.toNat_lt
      have hb := b.toNat_lt
      simp only [decodeDigits]
      rw [octet a _ (by omega), octet b _ (by omega)]
  | case3 a =>
      have ha := a.toNat_lt
      simp only [decodeDigits]
      rw [octet a _ (by omega)]
  | case4 => rfl

/-! ## Tokens -/

/-- A token is made of link digits only. -/
theorem isLinkDigit_of_mem_encode {c : CodePoint} {bytes : Bytes}
    (h : c ∈ encode bytes) : c.isLinkDigit = true := by
  rw [encode_eq_map] at h
  obtain ⟨n, -, rfl⟩ := List.mem_map.mp h
  exact isLinkDigit_digit n

/-- Padding that is there already is padding that need not be added. -/
theorem padded_append_pad {k : Nat} (h : k ≤ (4 - t.length % 4) % 4) :
    padded (t ++ List.replicate k pad) =
      t ++ List.replicate ((4 - t.length % 4) % 4) pad := by
  have count : k + (4 - (t.length + k) % 4) % 4 = (4 - t.length % 4) % 4 := by omega
  unfold padded
  rw [List.append_assoc, List.replicate_append_replicate, List.length_append,
    List.length_replicate, count]

/-- Reading passes over the padding and takes the digits as they are. -/
theorem decode_append_pad {k : Nat} (digits : pad ∉ t)
    (h : k ≤ (4 - t.length % 4) % 4) :
    decode (t ++ List.replicate k pad) = (t.mapM value?).bind decodeDigits := by
  have taken : (t ++ List.replicate ((4 - t.length % 4) % 4) pad).takeWhile (· ≠ pad) =
      t := by
    rw [List.takeWhile_append_of_pos]
    · rw [List.takeWhile_replicate]
      simp
    · intro c hc
      simpa using ne_of_mem_of_not_mem hc digits
  have fits : paddingFits t.length ((4 - t.length % 4) % 4) = true := by
    unfold paddingFits
    split
    · next h0 => rw [h0]; rfl
    · next h0 =>
        have hr : t.length % 4 ≠ 0 := h0
        rw [beq_iff_eq]
        omega
  unfold decode
  simp only [padded_append_pad h, taken, List.drop_left, List.length_replicate, fits,
    Bool.and_true]
  rw [if_pos]
  simp

/-- Reading takes back what was written. -/
theorem decode_encode (bytes : Bytes) : decode (encode bytes) = some bytes := by
  have digits : pad ∉ encode bytes := by
    intro h
    exact absurd (isLinkDigit_of_mem_encode h) (by decide)
  have h := @decode_append_pad _ 0 digits (Nat.zero_le _)
  rw [List.replicate_zero, List.append_nil] at h
  rw [h, encode_eq_map, mapM_value?_digit fun n => lt_of_mem_values bytes]
  exact decodeDigits_values bytes

theorem encode_ne_nil {bytes : Bytes} (h : bytes ≠ []) : encode bytes ≠ [] := by
  intro he
  have := decode_encode bytes
  rw [he] at this
  exact h (Option.some.inj this).symm

end Base64

end Playground
