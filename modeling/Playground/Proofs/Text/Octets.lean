import Playground.Proofs.Text.Utf8

/-!
# Only what is written as UTF-8 is read

Loose reading is exact: octets are read as a text only if they are what is written for
it. So nothing has two forms. An octet that opens a sequence tells the bounds of the
next one, and these leave no room for a longer form of a code point that has a shorter
one.
-/

namespace Playground.Utf8

variable {pos : Nat} {p : Partial} {bytes : Bytes} {t : Text}

theorem collect_cons_eq_ok {found : Piece} {pieces : List Piece}
    (read : collect (found :: pieces) = .ok t) :
    ∃ c rest, found = .point c ∧ t = c :: rest ∧ collect pieces = .ok rest := by
  cases found with
  | bad => cases read
  | point c =>
      rw [collect] at read
      split at read
      · next rest later =>
          cases read
          exact ⟨c, rest, rfl, rfl, later⟩
      · cases read

/-! ## Octets after the first -/

/-- A sequence that is read goes on with an octet within the bounds, which brings six bits. -/
theorem exists_continuation (read : collect (pieces true pos (some p) bytes) = .ok t) :
    ∃ b rest, bytes = b :: rest ∧ p.low ≤ b.toNat ∧ b.toNat ≤ p.high ∧
      if p.missing ≤ 1 then
        ∃ c later, t = c :: later ∧ collect (pieces true (pos + 1) none rest) = .ok later ∧
          (p.acc * 64 + b.toNat % 64 < 0x110000 → c.val = p.acc * 64 + b.toNat % 64)
      else
        collect (pieces true (pos + 1) (some { p with
          count := p.count + 1, missing := p.missing - 1, acc := p.acc * 64 + b.toNat % 64,
          low := 0x80, high := 0xBF }) rest) = .ok t := by
  cases bytes with
  | nil => cases read
  | cons b rest =>
      rw [pieces] at read
      simp only [step] at read
      by_cases within : p.low ≤ b.toNat ∧ b.toNat ≤ p.high
      · refine ⟨b, rest, rfl, within.1, within.2, ?_⟩
        rw [if_pos within] at read
        split
        · next last =>
            rw [if_pos last] at read
            obtain ⟨c, later, point, rfl, readLater⟩ := collect_cons_eq_ok read
            refine ⟨c, later, rfl, readLater, fun small => ?_⟩
            rw [dif_pos small] at point
            cases point
            rfl
        · next more =>
            rw [if_neg more] at read
            exact read
      · rw [if_neg within] at read
        obtain ⟨c, rest, point, -⟩ := collect_cons_eq_ok read
        cases point

/-- The last octet of a sequence. -/
theorem exists_last (read : collect (pieces true pos (some p) bytes) = .ok t)
    (one : p.missing = 1) (low : 0x80 ≤ p.low) (high : p.high ≤ 0xBF)
    (small : p.acc * 64 + (p.high - 0x80) < 0x110000) :
    ∃ n rest c later, n < 64 ∧ p.low ≤ 0x80 + n ∧ bytes = .ofNat (0x80 + n) :: rest ∧ t = c :: later ∧
      c.val = p.acc * 64 + n ∧ collect (pieces true (pos + 1) none rest) = .ok later := by
  obtain ⟨b, rest, rfl, atLeast, atMost, read⟩ := exists_continuation read
  rw [if_pos (Nat.le_of_eq one)] at read
  obtain ⟨c, later, rfl, read, value⟩ := read
  have octet : 0x80 + (b.toNat - 0x80) = b.toNat := by omega
  have six : b.toNat % 64 = b.toNat - 0x80 := by omega
  refine ⟨b.toNat - 0x80, rest, c, later, by omega, by omega, ?_, rfl, ?_, read⟩
  · rw [octet, UInt8.ofNat_toNat]
  · rw [← six]
    exact value (by omega)

/-- An octet of a sequence that others follow. -/
theorem exists_next {missing : Nat} (read : collect (pieces true pos (some p) bytes) = .ok t)
    (more : p.missing = missing + 2) (low : 0x80 ≤ p.low) (high : p.high ≤ 0xBF) :
    ∃ n rest, n < 64 ∧ p.low ≤ 0x80 + n ∧ 0x80 + n ≤ p.high ∧ bytes = .ofNat (0x80 + n) :: rest ∧
      collect (pieces true (pos + 1) (some { p with
        count := p.count + 1, missing := missing + 1, acc := p.acc * 64 + n,
        low := 0x80, high := 0xBF }) rest) = .ok t := by
  obtain ⟨b, rest, rfl, atLeast, atMost, read⟩ := exists_continuation read
  rw [if_neg (by omega)] at read
  have octet : 0x80 + (b.toNat - 0x80) = b.toNat := by omega
  have six : b.toNat % 64 = b.toNat - 0x80 := by omega
  refine ⟨b.toNat - 0x80, rest, by omega, by omega, by omega, ?_, ?_⟩
  · rw [octet, UInt8.ofNat_toNat]
  · have less : p.missing - 1 = missing + 1 := by omega
    rw [less, six] at read
    exact read

/-! ## The first octet -/

/-- What an octet may open, with the bounds on the next one. They leave out what has a shorter form
and what is too large for a code point. -/
inductive Opens (b : UInt8) (p : Partial) : Prop where
  | two (n : Nat) (octet : b = .ofNat (0xC0 + n)) (low : 2 ≤ n) (high : n < 0x20)
      (begun : p.missing = 1 ∧ p.acc = n ∧ p.low = 0x80 ∧ p.high = 0xBF)
  | three (n : Nat) (octet : b = .ofNat (0xE0 + n)) (high : n < 0x10)
      (begun : p.missing = 2 ∧ p.acc = n ∧ p.low = (if n = 0 then 0xA0 else 0x80) ∧ p.high = 0xBF)
  | four (n : Nat) (octet : b = .ofNat (0xF0 + n)) (high : n < 5)
      (begun : p.missing = 3 ∧ p.acc = n ∧ p.low = (if n = 0 then 0x90 else 0x80) ∧
        p.high = if n = 4 then 0x8F else 0xBF)

theorem eq_of_opening_whole {b : UInt8} {c : CodePoint} (h : opening true pos b = .whole c) :
    b = .ofNat c.val ∧ c.val < 0x80 := by
  unfold opening at h
  simp only [] at h
  split at h
  · next ascii =>
      cases h
      exact ⟨UInt8.ofNat_toNat.symm, ascii⟩
  · iterate 7
      split at h
      · cases h
    cases h

theorem opens_of_opening {b : UInt8} (h : opening true pos b = .begun p) : Opens b p := by
  have octet {base : Nat} (le : base ≤ b.toNat) : b = .ofNat (base + (b.toNat - base)) := by
    rw [Nat.add_sub_cancel' le, UInt8.ofNat_toNat]
  unfold opening at h
  simp only [] at h
  split at h
  · cases h
  split at h
  · next range =>
      cases h
      exact .two (b.toNat - 0xC0) (octet (by omega)) (by omega) (by omega) ⟨rfl, rfl, rfl, rfl⟩
  split at h
  · next zero =>
      cases h
      exact .three 0 (by rw [← UInt8.ofNat_toNat (x := b), zero]) (by decide) ⟨rfl, rfl, rfl, rfl⟩
  split at h
  · next surrogates =>
      cases h
      exact .three 0xD (by rw [← UInt8.ofNat_toNat (x := b), surrogates]) (by decide)
        ⟨rfl, rfl, rfl, rfl⟩
  split at h
  · next nonzero _ range =>
      cases h
      refine .three (b.toNat - 0xE0) (octet (by omega)) (by omega) ⟨rfl, rfl, ?_, rfl⟩
      rw [if_neg (by omega)]
  split at h
  · next zero =>
      cases h
      exact .four 0 (by rw [← UInt8.ofNat_toNat (x := b), zero]) (by decide) ⟨rfl, rfl, rfl, rfl⟩
  split at h
  · next range =>
      cases h
      refine .four (b.toNat - 0xF0) (octet (by omega)) (by omega) ⟨rfl, rfl, ?_, ?_⟩
      · rw [if_neg (by omega)]
      · rw [if_neg (by omega)]
  split at h
  · next four =>
      cases h
      exact .four 4 (by rw [← UInt8.ofNat_toNat (x := b), four]) (by decide) ⟨rfl, rfl, rfl, rfl⟩
  · cases h

/-! ## Code points -/

/-- If anything is read, the octets of its first code point stand in front. -/
theorem exists_encodeOne_append {b : UInt8} {rest : Bytes}
    (read : collect (pieces true pos none (b :: rest)) = .ok t) :
    ∃ c later after pos', t = c :: later ∧ b :: rest = encodeOne c ++ after ∧
      collect (pieces true pos' none after) = .ok later := by
  rw [pieces] at read
  simp only [step, openAt] at read
  cases first : opening true pos b with
  | refused =>
      rw [first] at read
      obtain ⟨_, _, bad, -⟩ := collect_cons_eq_ok read
      cases bad
  | whole c =>
      rw [first] at read
      obtain ⟨_, later, ⟨⟩, rfl, readLater⟩ := collect_cons_eq_ok read
      obtain ⟨octet, ascii⟩ := eq_of_opening_whole first
      refine ⟨c, later, rest, _, rfl, ?_, readLater⟩
      rw [encodeOne, if_pos ascii, octet]
      rfl
  | begun p =>
      rw [first] at read
      have read : collect (pieces true (pos + 1) (some p) rest) = .ok t := read
      cases opens_of_opening first with
      | two n octet low high begun =>
          obtain ⟨one, acc, bottom, top⟩ := begun
          obtain ⟨n₁, rest, c, later, h₁, l₁, rfl, rfl, value, read⟩ :=
            exists_last read one (by omega) (by omega) (by omega)
          refine ⟨c, later, rest, _, rfl, ?_, read⟩
          have q : c.val / 64 = n := by omega
          have r : c.val % 64 = n₁ := by omega
          rw [encodeOne, if_neg (by omega), if_pos (by omega), q, r, octet]
          rfl
      | three n octet high begun =>
          obtain ⟨two, acc, bottom, top⟩ := begun
          obtain ⟨n₁, rest, h₁, l₁, u₁, rfl, read₁⟩ :=
            exists_next read two (by rw [bottom]; split <;> omega) (by omega)
          obtain ⟨n₂, rest, c, later, h₂, l₂, rfl, rfl, value, read₂⟩ :=
            exists_last read₁ rfl (Nat.le_refl _) (Nat.le_refl _) (by simp only [acc]; omega)
          simp only [acc] at value
          rw [bottom] at l₁
          have least : 0x800 ≤ c.val := by
            split at l₁ <;> omega
          have q : c.val / 4096 = n := by omega
          have r : c.val / 64 % 64 = n₁ := by omega
          have s : c.val % 64 = n₂ := by omega
          refine ⟨c, later, rest, _, rfl, ?_, read₂⟩
          rw [encodeOne, if_neg (by omega), if_neg (by omega), if_pos (by omega), q, r, s, octet]
          rfl
      | four n octet high begun =>
          obtain ⟨three, acc, bottom, top⟩ := begun
          obtain ⟨n₁, rest, h₁, l₁, u₁, rfl, read₁⟩ :=
            exists_next read three (by rw [bottom]; split <;> omega)
              (by rw [top]; split <;> omega)
          obtain ⟨n₂, rest, h₂, l₂, u₂, rfl, read₂⟩ :=
            exists_next read₁ rfl (Nat.le_refl _) (Nat.le_refl _)
          rw [top] at u₁
          rw [bottom] at l₁
          have most : (n * 64 + n₁) * 64 + n₂ < 0x4400 := by
            split at u₁ <;> omega
          obtain ⟨n₃, rest, c, later, h₃, l₃, rfl, rfl, value, read₃⟩ :=
            exists_last read₂ rfl (Nat.le_refl _) (Nat.le_refl _) (by simp only [acc]; omega)
          simp only [acc] at value
          have least : 0x10000 ≤ c.val := by
            split at l₁ <;> omega
          have q : c.val / 262144 = n := by omega
          have r : c.val / 4096 % 64 = n₁ := by omega
          have s : c.val / 64 % 64 = n₂ := by omega
          have u : c.val % 64 = n₃ := by omega
          refine ⟨c, later, rest, _, rfl, ?_, read₃⟩
          rw [encodeOne, if_neg (by omega), if_neg (by omega), if_neg (by omega), q, r, s, u, octet]
          rfl

theorem eq_encodeLoose_of_collect (read : collect (pieces true pos none bytes) = .ok t) :
    bytes = encodeLoose t := by
  induction t generalizing pos bytes with
  | nil =>
      cases bytes with
      | nil => rfl
      | cons b rest =>
          obtain ⟨_, _, _, _, ⟨⟩, -⟩ := exists_encodeOne_append read
  | cons c t ih =>
      cases bytes with
      | nil => cases read
      | cons b rest =>
          obtain ⟨_, _, after, _, ⟨⟩, same, read⟩ := exists_encodeOne_append read
          rw [same, ih read]
          rfl

/-- Octets are read loosely as the text that they are written for, and as no other. -/
theorem decodeLoose_eq_ok_iff : decodeLoose bytes = .ok t ↔ bytes = encodeLoose t :=
  ⟨eq_encodeLoose_of_collect, fun same => same ▸ decodeLoose_encodeLoose t⟩

end Playground.Utf8
