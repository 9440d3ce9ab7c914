import Playground.Text.Utf8

/-!
# What is written as UTF-8 is read back

One code point is followed through the machine. Its first octet opens a
sequence that knows how many octets are missing, and each octet after it brings
six bits. The bounds on the second octet are met because a code point is written
in the shortest form that has room for it. They keep surrogates out as well,
unless the reading is loose.

Every decoder is fed by the same machine, so there is one lemma about pieces,
and one line for each decoder.
-/

namespace Playground.Utf8

variable {loose : Bool} {c : CodePoint} {n : Nat} {p : Partial}

theorem toNat_octet (h : n < 256) : (UInt8.ofNat n).toNat = n :=
  UInt8.toNat_ofNat_of_lt' h

/-! ## Octets after the first -/

section

variable {start : Nat} {first : UInt8} {count missing acc low high : Nat}

/-- An octet that belongs to a sequence, but does not complete it. -/
theorem pieces_continue (pos : Nat) (rest : Bytes) (h : n < 64)
    (hlow : low ≤ 0x80 + n) (hhigh : 0x80 + n ≤ high) :
    pieces loose pos (some ⟨start, first, count, missing + 2, acc, low, high⟩)
        (.ofNat (0x80 + n) :: rest) =
      pieces loose (pos + 1)
        (some ⟨start, first, count + 1, missing + 1, acc * 64 + n, 0x80, 0xBF⟩)
        rest := by
  have hn : (0x80 + n) % 64 = n := by omega
  rw [pieces]
  simp only [step, toNat_octet (show 0x80 + n < 256 by omega)]
  rw [if_pos ⟨hlow, hhigh⟩, if_neg (by omega), hn]
  rfl

/-- An octet that completes a sequence. -/
theorem pieces_complete (pos : Nat) (rest : Bytes) (h : n < 64)
    (hlow : low ≤ 0x80 + n) (hhigh : 0x80 + n ≤ high) (whole : acc * 64 + n = c.val) :
    pieces loose pos (some ⟨start, first, count, 1, acc, low, high⟩)
        (.ofNat (0x80 + n) :: rest) =
      .point c :: pieces loose (pos + 1) none rest := by
  have hn : (0x80 + n) % 64 = n := by omega
  rw [pieces]
  simp only [step, toNat_octet (show 0x80 + n < 256 by omega)]
  rw [if_pos ⟨hlow, hhigh⟩, if_pos (Nat.le_refl 1)]
  simp only [hn, whole, c.isLt, dite_true, List.singleton_append]

end

/-! ## The first octet -/

theorem opening_one (pos : Nat) (h : c.val < 0x80) :
    opening loose pos (.ofNat c.val) = .whole c := by
  unfold opening
  simp only [toNat_octet (Nat.lt_trans h (by decide))]
  rw [dif_pos h]

theorem opening_two (pos : Nat) (low : 2 ≤ n) (high : n < 0x20) :
    opening loose pos (.ofNat (0xC0 + n)) =
      .begun ⟨pos, .ofNat (0xC0 + n), 1, 1, n, 0x80, 0xBF⟩ := by
  unfold opening
  simp only [toNat_octet (show 0xC0 + n < 256 by omega)]
  rw [dif_neg (by omega), if_pos (by omega), Nat.add_sub_cancel_left]

/-- The bounds on the second of three octets. They leave out what has a shorter
form, and surrogates unless the reading is loose. -/
theorem opening_three (pos : Nat) (h : n < 0x10) :
    opening loose pos (.ofNat (0xE0 + n)) =
      .begun ⟨pos, .ofNat (0xE0 + n), 1, 2, n, if n = 0 then 0xA0 else 0x80,
        if n = 0xD ∧ loose = false then 0x9F else 0xBF⟩ := by
  unfold opening
  simp only [toNat_octet (show 0xE0 + n < 256 by omega)]
  rw [dif_neg (by omega), if_neg (by omega)]
  split
  · next h0 =>
      obtain rfl : n = 0 := by omega
      rfl
  split
  · next hd =>
      obtain rfl : n = 0xD := by omega
      cases loose <;> rfl
  · next h0 hd =>
      rw [if_pos (by omega), if_neg (by omega), if_neg (by omega),
        Nat.add_sub_cancel_left]

/-- The bounds on the second of four octets. They leave out what has a shorter
form and what is too large for a code point. -/
theorem opening_four (pos : Nat) (h : n < 5) :
    opening loose pos (.ofNat (0xF0 + n)) =
      .begun ⟨pos, .ofNat (0xF0 + n), 1, 3, n, if n = 0 then 0x90 else 0x80,
        if n = 4 then 0x8F else 0xBF⟩ := by
  match n, h with
  | 0, _ | 1, _ | 2, _ | 3, _ | 4, _ => rfl

theorem pieces_whole {b : UInt8} (pos : Nat) (rest : Bytes)
    (h : opening loose pos b = .whole c) :
    pieces loose pos none (b :: rest) =
      .point c :: pieces loose (pos + 1) none rest := by
  rw [pieces]
  simp only [step, openAt, h, List.singleton_append]

theorem pieces_begun {b : UInt8} (pos : Nat) (rest : Bytes)
    (h : opening loose pos b = .begun p) :
    pieces loose pos none (b :: rest) = pieces loose (pos + 1) (some p) rest := by
  rw [pieces]
  simp only [step, openAt, h, List.nil_append]

/-! ## Code points -/

/-- The machine gives back the code point that was written. -/
theorem pieces_encodeOne (pos : Nat) (rest : Bytes)
    (h : loose = true ∨ c.isSurrogate = false) :
    pieces loose pos none (encodeOne c ++ rest) =
      .point c :: pieces loose (pos + (encodeOne c).length) none rest := by
  have hc := c.isLt
  simp only [encodeOne]
  split
  · next h1 => exact pieces_whole pos rest (opening_one pos h1)
  split
  · next h1 h2 =>
      show pieces loose pos none (_ :: _ :: rest) = _
      rw [pieces_begun _ _ (opening_two pos (by omega) (by omega)),
        pieces_complete (c := c) _ _ (by omega) (by omega) (by omega) (by omega)]
      rfl
  split
  · next h1 h2 h3 =>
      have surrogates : loose = false → ¬ (0xD800 ≤ c.val ∧ c.val ≤ 0xDFFF) := by
        rintro hl ⟨hlow, hhigh⟩
        rcases h with h | h
        · exact absurd (hl.symm.trans h) (by simp)
        · simp only [CodePoint.isSurrogate, hlow, hhigh, decide_true] at h
          cases h
      show pieces loose pos none (_ :: _ :: _ :: rest) = _
      rw [pieces_begun _ _ (opening_three pos (by omega)),
        pieces_continue _ _ (by omega) ?_ ?_,
        pieces_complete (c := c) _ _ (by omega) (by omega) (by omega) (by omega)]
      · rfl
      · split <;> omega
      · split
        · next hd =>
            have := surrogates hd.2
            omega
        · omega
  · next h1 h2 h3 =>
      show pieces loose pos none (_ :: _ :: _ :: _ :: rest) = _
      rw [pieces_begun _ _ (opening_four pos (by omega)),
        pieces_continue _ _ (by omega) ?_ ?_,
        pieces_continue _ _ (by omega) (by omega) (by omega),
        pieces_complete (c := c) _ _ (by omega) (by omega) (by omega) (by omega)]
      · rfl
      · split <;> omega
      · split <;> omega

/-- The machine gives back a whole text. -/
theorem pieces_encodeLoose {t : Text} (pos : Nat)
    (h : loose = true ∨ ∀ c ∈ t, c.isSurrogate = false) :
    pieces loose pos none (encodeLoose t) = t.map .point := by
  induction t generalizing pos with
  | nil => rfl
  | cons c t ih =>
      show pieces loose pos none (encodeOne c ++ encodeLoose t) = _
      rw [pieces_encodeOne pos _ (h.imp_right fun h => h c List.mem_cons_self),
        ih _ (h.imp_right fun h d hd => h d (List.mem_cons_of_mem _ hd))]
      rfl

/-! ## Texts -/

theorem collect_map_point (t : Text) : collect (t.map .point) = .ok t := by
  induction t with
  | nil => rfl
  | cons c t ih =>
      rw [List.map_cons, collect, ih]

/-- Loose reading takes back what was loosely written, surrogates and all. -/
theorem decodeLoose_encodeLoose (t : Text) : decodeLoose (encodeLoose t) = .ok t := by
  unfold decodeLoose
  rw [pieces_encodeLoose 0 (.inl rfl)]
  exact collect_map_point t

/-- Lossy reading loses nothing of a text without surrogates. -/
theorem decodeLossy_encodeLoose {t : Text} (h : ∀ c ∈ t, c.isSurrogate = false) :
    decodeLossy (encodeLoose t) = t := by
  unfold decodeLossy
  rw [pieces_encodeLoose 0 (.inr h), List.map_map]
  exact List.map_id t

end Playground.Utf8

namespace Playground

/-- A text without surrogates, so that every reading takes it back. -/
def Text.Whole (t : Text) : Prop :=
  ∀ c ∈ t, c.isSurrogate = false

theorem Utf8.decode_encodeLoose {t : Text} (h : t.Whole) : decode (encodeLoose t) = .ok t := by
  unfold decode
  rw [pieces_encodeLoose 0 (.inr h)]
  exact collect_map_point t

theorem Utf8.whole_of_firstSurrogates {t : Text} {start : Nat}
    (h : firstSurrogates start t = none) : t.Whole := by
  induction t generalizing start with
  | nil => exact List.forall_mem_nil _
  | cons c t ih =>
      unfold firstSurrogates at h
      split at h
      · cases h
      · next hc => exact List.forall_mem_cons.mpr ⟨by simpa using hc, ih h⟩

namespace Text.Whole

variable {s t : Text}

theorem nil : Whole [] :=
  List.forall_mem_nil _

theorem append (hs : s.Whole) (ht : t.Whole) : (s ++ t).Whole :=
  List.forall_mem_append.mpr ⟨hs, ht⟩

theorem of_subset (ht : t.Whole) (sub : s ⊆ t) : s.Whole :=
  fun c mem => ht c (sub mem)

theorem flatten {ts : List Text} (h : ∀ t ∈ ts, t.Whole) : Whole (List.flatten ts) := by
  intro c mem
  obtain ⟨t, ht, mem⟩ := List.mem_flatten.mp mem
  exact h t ht c mem

theorem join {sep : Text} {ts : List Text} (hsep : sep.Whole) (h : ∀ t ∈ ts, t.Whole) :
    Whole (Text.join sep ts) := by
  induction ts with
  | nil => exact nil
  | cons t rest ih =>
      obtain ⟨first, later⟩ := List.forall_mem_cons.mp h
      cases rest with
      | nil => exact first
      | cons => exact (first.append hsep).append (ih later)

theorem ofChars (cs : List Char) : Whole (Text.ofChars cs) := by
  intro c mem
  obtain ⟨d, -, rfl⟩ := List.mem_map.mp mem
  have valid := d.valid
  simp only [UInt32.isValidChar, Nat.isValidChar] at valid
  show (decide (0xD800 ≤ d.val.toNat) && decide (d.val.toNat ≤ 0xDFFF)) = false
  rw [Bool.and_eq_false_iff, decide_eq_false_iff_not, decide_eq_false_iff_not]
  omega

theorem text (s : String) : Whole (Playground.text s) :=
  ofChars s.toList

end Text.Whole

end Playground
