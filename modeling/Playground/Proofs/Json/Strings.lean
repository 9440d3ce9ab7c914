import Mathlib.Data.List.Chain
import Playground.Json.Printer
import Playground.Proofs.Json.Grammar

/-!
# What is written between quotes is in the grammar

A string is written code point by code point, and the grammar has it in the same
steps. What a code point is written as depends on the form, but in each form it is
one way to have it in a string.

There is one exception, and it is in the nature of the escaped form. Two escaped
surrogates that make a pair are one code point, even if they were
written as two. So a text is legible in that form if no high surrogate stands
right in front of a low one. In the form that is not escaped every text is.
-/

namespace Playground.Json

variable {c d high : CodePoint} {n : Nat} {after : Text}

/-- In the escaped form no two neighbours of the text are taken for a pair. -/
def LegibleText (ascii : Bool) (t : Text) : Prop :=
  ascii = true → t.IsChain fun high low => joinPair? high low = none

theorem LegibleText.of_cons {ascii : Bool} {t : Text}
    (h : LegibleText ascii (c :: t)) : LegibleText ascii t :=
  fun ha => (h ha).tail

/-! ## Hexadecimal digits -/

theorem hexValue?_digitChar (h : n < 16) :
    hexValue? (CodePoint.ofChar n.digitChar) = some n := by
  revert n
  decide

/-- Four digits, the last one being the lowest. -/
theorem hexDigits_four (h : n < 0x10000) :
    Text.hexDigits 4 n = Text.ofChars [(n / 4096).digitChar, (n / 256 % 16).digitChar,
      (n / 16 % 16).digitChar, (n % 16).digitChar] := by
  have step {n : Nat} (h : 16 ≤ n) :
      Nat.toDigits 16 n = Nat.toDigits 16 (n / 16) ++ [(n % 16).digitChar] :=
    Nat.toDigits_of_base_le (by decide) h
  have last {n : Nat} (h : n < 16) : Nat.toDigits 16 n = [(n % 16).digitChar] := by
    rw [Nat.toDigits_of_lt_base h, Nat.mod_eq_of_lt h]
  have zero {n : Nat} (h : n = 0) : n.digitChar = '0' := by
    rw [h]
    rfl
  have h2 : n / 16 / 16 = n / 256 := Nat.div_div_eq_div_mul n 16 16
  have h3 : n / 256 / 16 = n / 4096 := Nat.div_div_eq_div_mul n 256 16
  unfold Text.hexDigits
  simp only
  by_cases h16 : n < 16
  · rw [last h16, zero (show n / 4096 = 0 by omega),
      zero (show n / 256 % 16 = 0 by omega), zero (show n / 16 % 16 = 0 by omega)]
    rfl
  by_cases h256 : n < 256
  · rw [step (by omega), last (by omega), zero (show n / 4096 = 0 by omega),
      zero (show n / 256 % 16 = 0 by omega)]
    rfl
  by_cases h4096 : n < 4096
  · rw [step (by omega), step (by omega), last (by omega), h2,
      zero (show n / 4096 = 0 by omega)]
    rfl
  · rw [step (by omega), step (by omega), step (by omega), last (by omega), h2, h3,
      Nat.mod_eq_of_lt (show n / 4096 < 16 by omega)]
    rfl

/-- Four digits are read as the number that they write. -/
theorem hex4?_digitChar (h : c.val < 0x10000) :
    hex4? (CodePoint.ofChar (c.val / 4096).digitChar)
      (CodePoint.ofChar (c.val / 256 % 16).digitChar)
      (CodePoint.ofChar (c.val / 16 % 16).digitChar)
      (CodePoint.ofChar (c.val % 16).digitChar) = some c := by
  have number : ((c.val / 4096 * 16 + c.val / 256 % 16) * 16 + c.val / 16 % 16) * 16 +
      c.val % 16 = c.val := by
    omega
  unfold hex4?
  rw [hexValue?_digitChar (by omega), hexValue?_digitChar (by omega),
    hexValue?_digitChar (by omega), hexValue?_digitChar (by omega)]
  simp only [number, CodePoint.ofNat?, c.isLt, dite_true]

/-! ## Pairs of escapes -/

theorem joinPair?_eq_none {low : CodePoint}
    (h : ¬ (0xD800 ≤ high.val ∧ high.val ≤ 0xDBFF) ∨ ¬ 0xDC00 ≤ low.val) :
    joinPair? high low = none := by
  unfold joinPair?
  rw [if_neg]
  rintro ⟨h1, h2, h3, -⟩
  rcases h with h | h
  · exact h ⟨h1, h2⟩
  · exact h h3

theorem unicodeEscape_eq (h : n < 0x10000) (after : Text) :
    unicodeEscape n ++ after = CodePoint.ofChar '\\' :: CodePoint.ofChar 'u' ::
      CodePoint.ofChar (n / 4096).digitChar ::
      CodePoint.ofChar (n / 256 % 16).digitChar ::
      CodePoint.ofChar (n / 16 % 16).digitChar ::
      CodePoint.ofChar (n % 16).digitChar :: after := by
  unfold unicodeEscape
  rw [hexDigits_four h]
  rfl

theorem completes_unicodeEscape (h : c.val < 0x10000)
    (hc : Completes high (unicodeEscape c.val ++ after)) :
    joinPair? high c ≠ none := by
  obtain ⟨s, u, a, b, d, e, more, low, heq, -, -, hx, hj⟩ := hc
  rw [unicodeEscape_eq h] at heq
  simp only [List.cons.injEq] at heq
  obtain ⟨-, -, rfl, rfl, rfl, rfl, -⟩ := heq
  rw [hex4?_digitChar h] at hx
  rw [Option.some.inj hx]
  exact hj

/-! ## Strings -/

/-- The two surrogates of a code point beyond the first plane make a pair. -/
theorem joinPair?_halves (h : 0x10000 ≤ c.val)
    (hhigh : high.val = 0xD800 + (c.val - 0x10000) / 1024) {low : CodePoint}
    (hlow : low.val = 0xDC00 + (c.val - 0x10000) % 1024) : joinPair? high low = some c := by
  have hc := c.isLt
  have number : 0x10000 + (high.val - 0xD800) * 1024 + (low.val - 0xDC00) = c.val := by
    omega
  unfold joinPair?
  rw [if_pos (by omega), number, CodePoint.ofNat?, dif_pos hc]

/-- An escape of four digits stands for its code point. -/
theorem body_unicodeEscape {t : Text} (h : c.val < 0x10000) (alone : ¬ Completes c after)
    (more : Body t after) : Body (c :: t) (unicodeEscape c.val ++ after) := by
  rw [unicodeEscape_eq h]
  exact .unicode (hex4?_digitChar h) alone more

/-- The escapes of both halves stand for the code point together. -/
theorem body_pair {t : Text} (h : 0x10000 ≤ c.val) (more : Body t after) :
    Body (c :: t) (unicodeEscape (0xD800 + (c.val - 0x10000) / 1024) ++
      unicodeEscape (0xDC00 + (c.val - 0x10000) % 1024) ++ after) := by
  have hc := c.isLt
  obtain ⟨high, hhigh⟩ : ∃ high : CodePoint,
      high.val = 0xD800 + (c.val - 0x10000) / 1024 := ⟨⟨_, by omega⟩, rfl⟩
  obtain ⟨low, hlow⟩ : ∃ low : CodePoint,
      low.val = 0xDC00 + (c.val - 0x10000) % 1024 := ⟨⟨_, by omega⟩, rfl⟩
  rw [← hhigh, ← hlow, List.append_assoc, unicodeEscape_eq (by omega), unicodeEscape_eq (by omega)]
  exact .pair (hex4?_digitChar (by omega)) (hex4?_digitChar (by omega))
    (joinPair?_halves h hhigh hlow) more

/-- The ways to write a code point in a string. A backslash goes with one of a few letters, and
a code point beyond the first plane is escaped as the two surrogates that stand for it. -/
inductive Escaped (ascii : Bool) (c : CodePoint) : Text → Prop
  | short (letter : Char) (known : letter ∈ "\"\\nrtfb".toList)
      (escape : shortEscape? (CodePoint.ofChar letter) = some c) (low : c.val ≤ 92) :
      Escaped ascii c [CodePoint.ofChar '\\', CodePoint.ofChar letter]
  | control (low : c.val < 32) : Escaped ascii c (unicodeEscape c.val)
  | plain (visible : ¬ c.val < 32) (quote : c.val ≠ 34) (backslash : c.val ≠ 92)
      (seen : ascii = false ∨ c.val < 127) : Escaped ascii c [c]
  | unicode (hides : ascii = true) (high : 127 ≤ c.val) (narrow : c.val < 0x10000) :
      Escaped ascii c (unicodeEscape c.val)
  | halves (hides : ascii = true) (wide : 0x10000 ≤ c.val) :
      Escaped ascii c (unicodeEscape (0xD800 + (c.val - 0x10000) / 1024) ++
        unicodeEscape (0xDC00 + (c.val - 0x10000) % 1024))

/-- There are no other ways. -/
theorem escaped_escapeOne (ascii : Bool) (c : CodePoint) :
    Escaped ascii c (escapeOne ascii c) := by
  have short {letter : Char} {n : Nat} (hc : c.val = n)
      (known : letter ∈ "\"\\nrtfb".toList)
      (escape : (shortEscape? (CodePoint.ofChar letter)).map CodePoint.val = some n)
      (low : n ≤ 92) :
      Escaped ascii c [CodePoint.ofChar '\\', CodePoint.ofChar letter] := by
    obtain ⟨d, hd, rfl⟩ := Option.map_eq_some_iff.mp escape
    exact .short letter known (CodePoint.eq_of_val hc ▸ hd) (hc ▸ low)
  unfold escapeOne
  split
  · next h => exact short h (by decide) rfl (by decide)
  · next h => exact short h (by decide) rfl (by decide)
  · next h => exact short h (by decide) rfl (by decide)
  · next h => exact short h (by decide) rfl (by decide)
  · next h => exact short h (by decide) rfl (by decide)
  · next h => exact short h (by decide) rfl (by decide)
  · next h => exact short h (by decide) rfl (by decide)
  · next quote backslash _ _ _ _ _ =>
      split
      · next low => exact .control low
      · next visible =>
          split
          · next seen => exact .plain visible quote backslash seen
          · next hidden =>
              rw [not_or, Bool.not_eq_false] at hidden
              obtain ⟨hides, high⟩ := hidden
              split
              · next narrow => exact .unicode hides (Nat.not_lt.mp high) narrow
              · next wide => exact .halves hides (Nat.not_lt.mp wide)

/-- What one code point is written as stands for it. -/
theorem body_escapeOne {ascii : Bool} {t : Text} (alone : ascii = true → ¬ Completes c after)
    (more : Body t after) : Body (c :: t) (escapeOne ascii c ++ after) := by
  have written := escaped_escapeOne ascii c
  generalize escapeOne ascii c = w at written ⊢
  cases written with
  | short _ _ escape => exact .short escape more
  | control low =>
      refine body_unicodeEscape (Nat.lt_trans low (by decide)) ?_ more
      rintro ⟨_, _, _, _, _, _, _, _, -, -, -, -, joined⟩
      refine joined (joinPair?_eq_none (.inl ?_))
      rintro ⟨high, -⟩
      exact absurd (Nat.lt_of_le_of_lt high low) (by decide)
  | plain visible quote backslash => exact .plain visible quote backslash more
  | unicode hides _ narrow => exact body_unicodeEscape narrow (alone hides) more
  | halves _ wide => exact body_pair wide more

/-- What does not begin with an escape completes no pair. -/
theorem not_completes_cons {t : Text} (h : d.val ≠ 92) :
    ¬ Completes high (d :: t) := by
  rintro ⟨s, u, a, b, e, f, more, low, heq, hs, -⟩
  cases heq
  exact h hs

/-- An escape of one letter completes no pair. -/
theorem not_completes_cons_cons {t : Text} (h : d.val ≠ 117) :
    ¬ Completes high (c :: d :: t) := by
  rintro ⟨s, u, a, b, e, f, more, low, heq, -, hu, -⟩
  cases heq
  exact h hu

/-- What the next code point is written as completes no pair, if the two code
points are no pair. -/
theorem not_completes_escapeOne (h : joinPair? high d = none) :
    ¬ Completes high (escapeOne true d ++ after) := by
  have written := escaped_escapeOne true d
  generalize escapeOne true d = w at written ⊢
  intro completes
  cases written with
  | short letter known =>
      have others : ∀ letter ∈ "\"\\nrtfb".toList, (CodePoint.ofChar letter).val ≠ 117 := by
        simp [CodePoint.ofChar]
      exact not_completes_cons_cons (others letter known) completes
  | control low =>
      exact completes_unicodeEscape (Nat.lt_trans low (by decide)) completes h
  | plain _ _ backslash => exact not_completes_cons backslash completes
  | unicode _ _ narrow => exact completes_unicodeEscape narrow completes h
  | halves _ wide =>
      have := d.isLt
      have first : 0xD800 + (d.val - 0x10000) / 1024 < 0xDC00 := by omega
      rw [List.append_assoc] at completes
      refine @completes_unicodeEscape ⟨_, Nat.lt_trans first (by decide)⟩ _ _
        (Nat.lt_trans first (by decide)) completes (joinPair?_eq_none (.inr ?_))
      exact Nat.not_le.mpr first

/-- A legible text stands in a string as it is written. -/
theorem body_escaped {ascii : Bool} {t : Text} (h : LegibleText ascii t) :
    Body t (t.flatMap (escapeOne ascii)) := by
  induction t with
  | nil => exact .nil
  | cons c t ih =>
      rw [List.flatMap_cons]
      refine body_escapeOne ?_ (ih h.of_cons)
      rintro rfl
      cases t with
      | nil =>
          rintro ⟨_, _, _, _, _, _, _, _, impossible, -⟩
          cases impossible
      | cons d t =>
          rw [List.flatMap_cons]
          exact not_completes_escapeOne (h rfl).rel

end Playground.Json
