import Mathlib.Tactic.ByContra
import Playground.Proofs.Json.Grammar

/-!
# Blanks, numbers and strings are read as the grammar has them

Each part of the reader takes something off the front of a text. What it took is the
text up to where it goes on, and that is a number, say, of the grammar.

The other way round it matters what follows. Digits are read as long as there are any,
so a number is only read as it stands if nothing behind it could belong to it. A string
ends at its quote, whatever follows.
-/

namespace Playground.Json

variable {c : CodePoint} {t w rest : Text} {ds : List Nat} {fuel : Nat} {value : Json}
  {negative : Bool} {power : Int}

/-! ## Blanks -/

theorem exists_space (t : Text) : ∃ b, IsSpace b ∧ t = b ++ skipBlanks t := by
  induction t with
  | nil => exact ⟨[], .nil, rfl⟩
  | cons c t ih =>
      rw [skipBlanks]
      split
      · next blank =>
          obtain ⟨b, space, split⟩ := ih
          exact ⟨c :: b, List.forall_mem_cons.mpr ⟨blank, space⟩, congrArg (c :: ·) split⟩
      · exact ⟨[], .nil, rfl⟩

/-- What stands behind some blanks. -/
theorem exists_space_of_eq {t' : Text} (h : skipBlanks t = t') :
    ∃ b, IsSpace b ∧ t = b ++ t' :=
  h ▸ exists_space t

theorem skipBlanks_append {b : Text} (space : IsSpace b) (t : Text) :
    skipBlanks (b ++ t) = skipBlanks t := by
  induction b with
  | nil => rfl
  | cons c b ih =>
      obtain ⟨blank, space⟩ := List.forall_mem_cons.mp space
      rw [List.cons_append, skipBlanks, if_pos blank, ih space]

/-! ## Numbers -/

theorem digitValue?_eq_some_iff {d : Nat} : digitValue? c = some d ↔ d ≤ 9 ∧ c.val = 48 + d := by
  unfold digitValue?
  split
  · rw [Option.some.injEq]
    omega
  · exact iff_of_false nofun fun h => by omega

theorem digitValue?_eq_none (h : c.val < 48 ∨ 57 < c.val) : digitValue? c = none :=
  if_neg (by omega)

theorem exists_digits (t : Text) : ∃ w, t = w ++ (digitRun t).2 ∧
    List.Forall₂ (fun d c => digitValue? c = some d) (digitRun t).1 w := by
  induction t with
  | nil => exact ⟨[], rfl, .nil⟩
  | cons c t ih =>
      rw [digitRun]
      cases digit : digitValue? c with
      | none => exact ⟨[], rfl, .nil⟩
      | some d =>
          obtain ⟨w, split, all⟩ := ih
          exact ⟨c :: w, congrArg (c :: ·) split, .cons digit all⟩

theorem digits_of_digitRun (h : digitRun t = (ds, rest)) (one : ds ≠ []) :
    ∃ w, t = w ++ rest ∧ Digits ds w := by
  obtain ⟨w, split, all⟩ := exists_digits t
  rw [h] at split all
  exact ⟨w, split, one, all⟩

theorem fraction_of_fraction? (h : fraction? t = some (ds, rest)) :
    ∃ w, t = w ++ rest ∧ Fraction ds w ∧ w ≠ [] := by
  cases t with
  | nil => cases h
  | cons c t =>
      rw [fraction?] at h
      split at h
      · next point =>
          rcases run : digitRun t with ⟨_ | ⟨d, ds'⟩, after⟩
          · rw [run] at h
            cases h
          · rw [run] at h
            cases h
            obtain ⟨w, split, digits⟩ := digits_of_digitRun run (List.cons_ne_nil _ _)
            have point : c = CodePoint.ofChar '.' := CodePoint.eq_of_val point
            exact ⟨_, by rw [split, point]; rfl, .present digits, List.cons_ne_nil _ _⟩
      · cases h

/-- What the reader makes of the digits of an exponent. -/
def power? (negative : Bool) (t : Text) : Option (Int × Text) :=
  match digitRun t with
  | ([], _) => none
  | (ds, after) =>
    some (if negative then -Int.ofNat (ofDigits ds) else Int.ofNat (ofDigits ds), after)

section Exponents

variable {e : CodePoint} (letter : e.val = 101 ∨ e.val = 69)

include letter

theorem exponent?_plain (unsigned : ∀ c ∈ t.head?, c.val ≠ 45 ∧ c.val ≠ 43) :
    exponent? (e :: t) = power? false t := by
  unfold exponent?
  simp only []
  rw [if_pos letter]
  cases t with
  | nil => rfl
  | cons c t =>
      obtain ⟨minus, plus⟩ := unsigned c rfl
      simp only [if_neg minus, if_neg plus]
      rfl

theorem exponent?_plus (t : Text) :
    exponent? (e :: CodePoint.ofChar '+' :: t) = power? false t := by
  unfold exponent?
  simp only []
  rw [if_pos letter]
  rfl

theorem exponent?_minus (t : Text) :
    exponent? (e :: CodePoint.ofChar '-' :: t) = power? true t := by
  unfold exponent?
  simp only []
  rw [if_pos letter]
  rfl

end Exponents

theorem digits_of_power? {negative : Bool} {power : Int} (h : power? negative t = some (power, rest)) :
    ∃ ds w, t = w ++ rest ∧ Digits ds w ∧
      power = if negative then -Int.ofNat (ofDigits ds) else Int.ofNat (ofDigits ds) := by
  unfold power? at h
  rcases run : digitRun t with ⟨_ | ⟨d, ds⟩, after⟩
  · rw [run] at h
    cases h
  · rw [run] at h
    cases h
    obtain ⟨w, split, digits⟩ := digits_of_digitRun run (List.cons_ne_nil _ _)
    exact ⟨_, w, split, digits, rfl⟩

theorem exponent_of_exponent? {power : Int} (h : exponent? t = some (power, rest)) :
    ∃ w, t = w ++ rest ∧ Exponent power w ∧ w ≠ [] := by
  cases t with
  | nil => cases h
  | cons e t =>
      have letter : e.val = 101 ∨ e.val = 69 := by
        by_contra other
        unfold exponent? at h
        simp only [] at h
        rw [if_neg other] at h
        cases h
      by_cases signed : ∃ s t', t = s :: t' ∧ (s.val = 45 ∨ s.val = 43)
      · obtain ⟨s, t, rfl, minus | plus⟩ := signed
        · obtain rfl : s = CodePoint.ofChar '-' := CodePoint.eq_of_val minus
          rw [exponent?_minus letter] at h
          obtain ⟨ds, w, rfl, digits, rfl⟩ := digits_of_power? h
          exact ⟨_, rfl, .minus letter digits, List.cons_ne_nil _ _⟩
        · obtain rfl : s = CodePoint.ofChar '+' := CodePoint.eq_of_val plus
          rw [exponent?_plus letter] at h
          obtain ⟨ds, w, rfl, digits, rfl⟩ := digits_of_power? h
          exact ⟨_, rfl, .plus letter digits, List.cons_ne_nil _ _⟩
      · rw [exponent?_plain letter] at h
        · obtain ⟨ds, w, rfl, digits, rfl⟩ := digits_of_power? h
          exact ⟨_, rfl, .plain letter digits, List.cons_ne_nil _ _⟩
        · intro c hc
          cases t with
          | nil => cases hc
          | cons s t =>
              cases hc
              exact ⟨fun minus => signed ⟨c, t, rfl, .inl minus⟩,
                fun plus => signed ⟨c, t, rfl, .inr plus⟩⟩

/-- The digits in front of the point, with what follows them. -/
def whole : Text → List Nat × Text
  | c :: t => if c.val = 48 then ([0], t) else digitRun (c :: t)
  | [] => ([], [])

/-- A number is read in three parts. -/
theorem number_of_whole (negative : Bool) (h : whole t = (ds, rest)) (one : ds ≠ []) :
    number negative t =
      match fraction? rest, exponent? ((fraction? rest).elim rest Prod.snd) with
      | none, none =>
        if maxDigits < ds.length then .error .tooLong
        else .ok (.int (if negative then -Int.ofNat (ofDigits ds) else Int.ofNat (ofDigits ds)), rest)
      | fraction, exponent =>
        .ok (.num (Binary64.ofDecimal negative (ofDigits (ds ++ fraction.elim [] Prod.fst))
          (exponent.elim 0 Prod.fst - Int.ofNat (fraction.elim [] Prod.fst).length)),
            exponent.elim (fraction.elim rest Prod.snd) Prod.snd) := by
  obtain ⟨d, ds, rfl⟩ := List.exists_cons_of_ne_nil one
  unfold number
  cases t with
  | nil => cases h
  | cons c t =>
      have h : (if c.val = 48 then ([0], t) else digitRun (c :: t)) = (d :: ds, rest) := h
      dsimp only
      exact h ▸ rfl

theorem number_of_no_whole (negative : Bool) (h : whole t = ([], rest)) :
    number negative t = .error .malformed := by
  unfold number
  cases t with
  | nil => rfl
  | cons c t =>
      have h : (if c.val = 48 then ([0], t) else digitRun (c :: t)) = ([], rest) := h
      simp only [h]

theorem digits_of_whole (h : whole t = (ds, rest)) (one : ds ≠ []) :
    ∃ w, t = w ++ rest ∧ Digits ds w ∧ (ds.head? = some 0 → ds = [0]) := by
  cases t with
  | nil =>
      cases h
      exact absurd rfl one
  | cons c t =>
      rw [whole] at h
      split at h
      · next zero =>
          cases h
          have digit : digitValue? c = some 0 := digitValue?_eq_some_iff.mpr ⟨by decide, zero⟩
          exact ⟨[c], rfl, ⟨one, .cons digit .nil⟩, fun _ => rfl⟩
      · next nonzero =>
          obtain ⟨w, split, digits⟩ := digits_of_digitRun h one
          refine ⟨w, split, digits, fun zero => ?_⟩
          obtain ⟨-, all⟩ := digits
          cases all with
          | nil => cases zero
          | cons digit all =>
              cases zero
              cases split
              exact absurd (digitValue?_eq_some_iff.mp digit).2 nonzero

theorem unsigned_of_number {negative : Bool} (h : number negative t = .ok (value, rest)) :
    ∃ w, t = w ++ rest ∧ Unsigned negative value w := by
  rcases first : whole t with ⟨ds, t'⟩
  by_cases one : ds = []
  · rw [one] at first
    rw [number_of_no_whole negative first] at h
    cases h
  obtain ⟨w, rfl, digits, shortest⟩ := digits_of_whole first one
  rw [number_of_whole negative first one] at h
  cases hf : fraction? t' with
  | none =>
      cases he : exponent? t' with
      | none =>
          simp only [hf, Option.elim_none, he] at h
          split at h
          · cases h
          · next short =>
              cases h
              exact ⟨w, rfl, .integer digits shortest (Nat.le_of_not_lt short)⟩
      | some found =>
          obtain ⟨power, after⟩ := found
          simp only [hf, Option.elim_none, he] at h
          cases h
          obtain ⟨e, rfl, exponent, present⟩ := exponent_of_exponent? he
          exact ⟨_, (List.append_assoc w e _).symm,
            .decimal digits shortest .absent exponent (.inr present)⟩
  | some found =>
      obtain ⟨places, behind⟩ := found
      obtain ⟨f, rfl, fraction, present⟩ := fraction_of_fraction? hf
      cases he : exponent? behind with
      | none =>
          simp only [hf, Option.elim_some, he] at h
          cases h
          refine ⟨w ++ (f ++ []), ?_, .decimal digits shortest fraction .absent (.inl present)⟩
          rw [List.append_nil, List.append_assoc]
          rfl
      | some found =>
          obtain ⟨power, after⟩ := found
          simp only [hf, Option.elim_some, he] at h
          cases h
          obtain ⟨e, rfl, exponent, -⟩ := exponent_of_exponent? he
          refine ⟨w ++ (f ++ e), ?_, .decimal digits shortest fraction exponent (.inl present)⟩
          rw [List.append_assoc, List.append_assoc]

/-! ### What follows a number -/

/-- A text goes on with no digit. -/
def NoDigit (t : Text) : Prop :=
  ∀ c ∈ t.head?, digitValue? c = none

/-- A number in front of a text ends there. -/
def Ends (t : Text) : Prop :=
  ∀ c ∈ t.head?, digitValue? c = none ∧ c.val ≠ 46 ∧ c.val ≠ 101 ∧ c.val ≠ 69

theorem Ends.noDigit (ends : Ends rest) : NoDigit rest :=
  fun c hc => (ends c hc).1

theorem digitRun_append (all : List.Forall₂ (fun d c => digitValue? c = some d) ds w)
    (stop : NoDigit rest) : digitRun (w ++ rest) = (ds, rest) := by
  induction all with
  | nil =>
      cases rest with
      | nil => rfl
      | cons c rest => rw [List.nil_append, digitRun, stop c rfl]
  | cons digit _ ih => rw [List.cons_append, digitRun, digit, ih]

theorem Digits.exists_cons (digits : Digits ds w) :
    ∃ d ds' c w', ds = d :: ds' ∧ w = c :: w' ∧ digitValue? c = some d ∧
      List.Forall₂ (fun d c => digitValue? c = some d) ds' w' := by
  obtain ⟨one, all⟩ := digits
  cases all with
  | nil => exact absurd rfl one
  | cons digit all => exact ⟨_, _, _, _, rfl, rfl, digit, all⟩

theorem whole_append (digits : Digits ds w) (shortest : ds.head? = some 0 → ds = [0])
    (stop : NoDigit rest) : whole (w ++ rest) = (ds, rest) := by
  obtain ⟨d, ds', c, w', rfl, rfl, digit, all⟩ := digits.exists_cons
  rw [List.cons_append, whole]
  split
  · next zero =>
      have value := (digitValue?_eq_some_iff.mp digit).2
      obtain rfl : d = 0 := by omega
      cases (List.cons.inj (shortest rfl)).2
      cases all
      rfl
  · exact digitRun_append (.cons digit all) stop

theorem fraction?_append (digits : Digits ds w) (stop : NoDigit rest) :
    fraction? (CodePoint.ofChar '.' :: (w ++ rest)) = some (ds, rest) := by
  obtain ⟨d, ds', rfl⟩ := List.exists_cons_of_ne_nil digits.1
  rw [fraction?, if_pos (show (CodePoint.ofChar '.').val = 46 from rfl),
    digitRun_append digits.2 stop]

theorem fraction?_eq_none (h : ∀ c ∈ t.head?, c.val ≠ 46) : fraction? t = none := by
  cases t with
  | nil => rfl
  | cons c t => rw [fraction?, if_neg (h c rfl)]

theorem power?_append (digits : Digits ds w) (stop : NoDigit rest) :
    power? negative (w ++ rest) =
      some (if negative then -Int.ofNat (ofDigits ds) else Int.ofNat (ofDigits ds), rest) := by
  obtain ⟨d, ds', rfl⟩ := List.exists_cons_of_ne_nil digits.1
  rw [power?, digitRun_append digits.2 stop]

theorem exponent?_append {e : Text} (exponent : Exponent power e) (present : e ≠ [])
    (stop : NoDigit rest) : exponent? (e ++ rest) = some (power, rest) := by
  cases exponent with
  | absent => exact absurd rfl present
  | plain letter digits =>
      obtain ⟨d, ds', c, w', rfl, rfl, digit, all⟩ := digits.exists_cons
      refine (exponent?_plain letter fun c' hc' => ?_).trans (power?_append digits stop)
      cases hc'
      have value := (digitValue?_eq_some_iff.mp digit).2
      omega
  | plus letter digits => exact (exponent?_plus letter _).trans (power?_append digits stop)
  | minus letter digits => exact (exponent?_minus letter _).trans (power?_append digits stop)

theorem exponent?_eq_none (h : ∀ c ∈ t.head?, c.val ≠ 101 ∧ c.val ≠ 69) : exponent? t = none := by
  cases t with
  | nil => rfl
  | cons e t =>
      unfold exponent?
      simp only []
      rw [if_neg (not_or.mpr (h e rfl))]

/-- The letter of an exponent is no digit and no point. -/
theorem Exponent.noDigit_append {e : Text} (exponent : Exponent power e) (ends : Ends rest) :
    ∀ c ∈ (e ++ rest).head?, digitValue? c = none ∧ c.val ≠ 46 := by
  have letter {e : CodePoint} (h : e.val = 101 ∨ e.val = 69) :
      digitValue? e = none ∧ e.val ≠ 46 :=
    ⟨digitValue?_eq_none (by omega), by omega⟩
  intro c hc
  cases exponent with
  | absent => exact ⟨(ends c hc).1, (ends c hc).2.1⟩
  | plain h _ | plus h _ | minus h _ =>
      cases hc
      exact letter h

theorem number_append (unsigned : Unsigned negative value w) (ends : Ends rest) :
    number negative (w ++ rest) = .ok (value, rest) := by
  cases unsigned with
  | @integer ds w digits shortest short =>
      rw [number_of_whole negative (whole_append digits shortest ends.noDigit) digits.1,
        fraction?_eq_none fun c hc => (ends c hc).2.1]
      simp only [Option.elim_none]
      rw [exponent?_eq_none fun c hc => (ends c hc).2.2]
      simp only [if_neg (Nat.not_lt.mpr short)]
  | @decimal ds places power w f e digits shortest fraction exponent either =>
      have behind := exponent.noDigit_append ends
      rw [List.append_assoc, List.append_assoc]
      cases fraction with
      | absent =>
          have present : e ≠ [] := either.resolve_left fun h => h rfl
          rw [List.nil_append, number_of_whole negative
            (whole_append digits shortest fun c hc => (behind c hc).1) digits.1,
            fraction?_eq_none fun c hc => (behind c hc).2]
          simp only [Option.elim_none]
          rw [exponent?_append exponent present ends.noDigit]
          rfl
      | @present places f digits' =>
          have point : NoDigit (CodePoint.ofChar '.' :: (f ++ (e ++ rest))) := fun c hc => by
            cases hc
            rfl
          rw [List.cons_append, number_of_whole negative
            (whole_append digits shortest point) digits.1,
            fraction?_append digits' fun c hc => (behind c hc).1]
          simp only [Option.elim_some]
          cases exponent with
          | absent =>
              rw [List.nil_append, exponent?_eq_none fun c hc => (ends c hc).2.2]
              rfl
          | plain letter more =>
              rw [exponent?_append (.plain letter more) (List.cons_ne_nil _ _) ends.noDigit]
              rfl
          | plus letter more =>
              rw [exponent?_append (.plus letter more) (List.cons_ne_nil _ _) ends.noDigit]
              rfl
          | minus letter more =>
              rw [exponent?_append (.minus letter more) (List.cons_ne_nil _ _) ends.noDigit]
              rfl

/-! ## Strings -/

section Escapes

variable {x₁ x₂ x₃ x₄ y₁ y₂ y₃ y₄ high low : CodePoint}

/-- An escape that nothing completes is read as it stands. -/
theorem escape?_of_not_completes (hex : hex4? x₁ x₂ x₃ x₄ = some c) (alone : ¬ Completes c rest) :
    escape? (CodePoint.ofChar 'u' :: x₁ :: x₂ :: x₃ :: x₄ :: rest) = some (c, rest) := by
  have hu : (CodePoint.ofChar 'u').val = 117 := rfl
  rw [escape?, if_pos hu]
  simp only [hex]
  split
  · next s u a b d e more =>
      split
      · next hs =>
          split
          · next whole hw =>
              obtain ⟨low, hx, hj⟩ := Option.bind_eq_some_iff.mp hw
              refine (alone ⟨s, u, a, b, d, e, more, low, rfl, hs.1, hs.2, hx, ?_⟩).elim
              rw [hj]
              simp
          · rfl
      · rfl
  · rfl

/-- Two escapes that make a pair are read as one code point. -/
theorem escape?_of_pair (hexHigh : hex4? x₁ x₂ x₃ x₄ = some high)
    (hexLow : hex4? y₁ y₂ y₃ y₄ = some low) (pair : joinPair? high low = some c) :
    escape? (CodePoint.ofChar 'u' :: x₁ :: x₂ :: x₃ :: x₄ :: CodePoint.ofChar '\\' ::
      CodePoint.ofChar 'u' :: y₁ :: y₂ :: y₃ :: y₄ :: rest) = some (c, rest) := by
  have hu : (CodePoint.ofChar 'u').val = 117 := rfl
  rw [escape?, if_pos hu]
  simp only [hexHigh, hexLow]
  rw [if_pos ⟨rfl, rfl⟩, Option.bind_some, pair]

/-- What is read behind a backslash goes on with four digits, or it is one letter. -/
theorem exists_hex_or_short (h : escape? t = some (c, rest)) :
    (∃ x₁ x₂ x₃ x₄ high after, t = CodePoint.ofChar 'u' :: x₁ :: x₂ :: x₃ :: x₄ :: after ∧
      hex4? x₁ x₂ x₃ x₄ = some high) ∨ ∃ letter, t = letter :: rest ∧ shortEscape? letter = some c := by
  cases t with
  | nil => cases h
  | cons u t =>
      rw [escape?.eq_def] at h
      simp only [] at h
      split at h
      · next letter =>
          obtain rfl : u = CodePoint.ofChar 'u' := CodePoint.eq_of_val letter
          split at h
          · next x₁ x₂ x₃ x₄ after =>
              split at h
              · cases h
              · next high hex => exact .inl ⟨x₁, x₂, x₃, x₄, high, after, rfl, hex⟩
          · cases h
      · obtain ⟨p, short, same⟩ := Option.map_eq_some_iff.mp h
        cases same
        exact .inr ⟨u, rfl, short⟩

end Escapes

theorem Completes.append {high : CodePoint} {w : Text} (h : Completes high w) (t : Text) :
    Completes high (w ++ t) := by
  obtain ⟨s, u, a, b, d, e, more, low, rfl, rest⟩ := h
  exact ⟨s, u, a, b, d, e, more ++ t, low, rfl, rest⟩

/-- An escape stands in front of the rest of a string. -/
theorem body_of_escape? {s w after : Text} (h : escape? t = some (c, w ++ after)) (more : Body s w) :
    ∃ w', CodePoint.ofChar '\\' :: t = w' ++ after ∧ Body (c :: s) w' := by
  rcases exists_hex_or_short h with ⟨x₁, x₂, x₃, x₄, high, behind, rfl, hex⟩ | ⟨letter, rfl, short⟩
  · by_cases paired : Completes high behind
    · obtain ⟨b, u, y₁, y₂, y₃, y₄, behind, low, rfl, hb, hu, hexLow, whole⟩ := paired
      obtain rfl : b = CodePoint.ofChar '\\' := CodePoint.eq_of_val hb
      obtain rfl : u = CodePoint.ofChar 'u' := CodePoint.eq_of_val hu
      obtain ⟨whole, pair⟩ := Option.ne_none_iff_exists'.mp whole
      rw [escape?_of_pair hex hexLow pair] at h
      cases h
      exact ⟨_, rfl, .pair hex hexLow pair more⟩
    · rw [escape?_of_not_completes hex paired] at h
      cases h
      exact ⟨_, rfl, .unicode hex (fun completed => paired (completed.append _)) more⟩
  · exact ⟨_, rfl, .short short more⟩

theorem body_of_stringFrom {s : Text} (h : stringFrom fuel t = some (s, rest)) :
    ∃ w, t = w ++ CodePoint.ofChar '"' :: rest ∧ Body s w := by
  induction fuel generalizing t s with
  | zero => cases h
  | succ fuel ih =>
      cases t with
      | nil => cases h
      | cons c t =>
          rw [stringFrom] at h
          split at h
          · next quote =>
              cases h
              obtain rfl : c = CodePoint.ofChar '"' := CodePoint.eq_of_val quote
              exact ⟨[], rfl, .nil⟩
          · next quote =>
              split at h
              · cases h
              · next visible =>
                  split at h
                  · next backslash =>
                      obtain rfl : c = CodePoint.ofChar '\\' := CodePoint.eq_of_val backslash
                      cases escaped : escape? t with
                      | none =>
                          rw [escaped] at h
                          cases h
                      | some found =>
                          obtain ⟨p, after⟩ := found
                          rw [escaped] at h
                          obtain ⟨⟨s, after⟩, later, same⟩ := Option.map_eq_some_iff.mp h
                          cases same
                          obtain ⟨w, rfl, body⟩ := ih later
                          exact body_of_escape? escaped body
                  · next backslash =>
                      obtain ⟨⟨s, after⟩, later, same⟩ := Option.map_eq_some_iff.mp h
                      cases same
                      obtain ⟨w, rfl, body⟩ := ih later
                      exact ⟨c :: w, rfl, .plain visible quote backslash body⟩

/-! ### What follows a string -/

theorem Body.length_le {t w : Text} (body : Body t w) : t.length ≤ w.length := by
  induction body with
  | nil => exact Nat.le_refl 0
  | plain _ _ _ _ ih | short _ _ ih | unicode _ _ _ ih | pair _ _ _ _ ih =>
      simp only [List.length_cons]
      omega

theorem hexValue?_of_hex4? {x₁ x₂ x₃ x₄ : CodePoint} (hex : hex4? x₁ x₂ x₃ x₄ = some c) :
    (hexValue? x₁).isSome ∧ (hexValue? x₂).isSome ∧ (hexValue? x₃).isSome ∧
      (hexValue? x₄).isSome := by
  unfold hex4? at hex
  split at hex
  · next h₁ h₂ h₃ h₄ => simp only [h₁, h₂, h₃, h₄, Option.isSome_some, and_self]
  · cases hex

/-- No escape that completes a pair reaches beyond the quote. -/
theorem Completes.of_append_quote {high : CodePoint}
    (h : Completes high (w ++ CodePoint.ofChar '"' :: rest)) : Completes high w := by
  obtain ⟨s, u, a, b, d, e, more, low, split, hs, hu, hex, pair⟩ := h
  obtain ⟨ha, hb, hd, he⟩ := hexValue?_of_hex4? hex
  match w with
  | [] =>
      cases split
      cases hs
  | [_] =>
      cases split
      cases hu
  | [_, _] =>
      cases split
      cases ha
  | [_, _, _] =>
      cases split
      cases hb
  | [_, _, _, _] =>
      cases split
      cases hd
  | [_, _, _, _, _] =>
      cases split
      cases he
  | _ :: _ :: _ :: _ :: _ :: _ :: w =>
      cases split
      exact ⟨s, u, a, b, d, e, w, low, rfl, hs, hu, hex, pair⟩

theorem escape?_of_short {letter : CodePoint} (short : shortEscape? letter = some c) (t : Text) :
    escape? (letter :: t) = some (c, t) := by
  rw [escape?.eq_def]
  simp only []
  rw [if_neg, short]
  · rfl
  · intro u
    rw [shortEscape?, u] at short
    cases short

/-- What an escape stands for comes before the rest of the string. -/
theorem stringFrom_escape {s after : Text} (escaped : escape? t = some (c, after))
    (read : stringFrom fuel after = some (s, rest)) :
    stringFrom (fuel + 1) (CodePoint.ofChar '\\' :: t) = some (c :: s, rest) := by
  have hs : (CodePoint.ofChar '\\').val = 92 := rfl
  rw [stringFrom, hs, if_neg (by decide), if_neg (by decide), if_pos rfl, escaped]
  simp only [read]
  rfl

theorem stringFrom_append (body : Body t w) (rest : Text) (fits : t.length < fuel) :
    stringFrom fuel (w ++ CodePoint.ofChar '"' :: rest) = some (t, rest) := by
  induction body generalizing fuel with
  | nil =>
      obtain ⟨fuel, rfl⟩ := Nat.exists_eq_succ_of_ne_zero (Nat.ne_of_gt fits)
      rfl
  | plain visible quote backslash _ ih =>
      obtain ⟨fuel, rfl⟩ := Nat.exists_eq_succ_of_ne_zero (Nat.ne_zero_of_lt fits)
      rw [List.cons_append, stringFrom, if_neg quote, if_neg visible, if_neg backslash,
        ih (Nat.lt_of_succ_lt_succ fits)]
      rfl
  | short escape _ ih =>
      obtain ⟨fuel, rfl⟩ := Nat.exists_eq_succ_of_ne_zero (Nat.ne_zero_of_lt fits)
      exact stringFrom_escape (escape?_of_short escape _) (ih (Nat.lt_of_succ_lt_succ fits))
  | unicode hex alone _ ih =>
      obtain ⟨fuel, rfl⟩ := Nat.exists_eq_succ_of_ne_zero (Nat.ne_zero_of_lt fits)
      exact stringFrom_escape (escape?_of_not_completes hex fun h => alone h.of_append_quote)
        (ih (Nat.lt_of_succ_lt_succ fits))
  | pair hexHigh hexLow joined _ ih =>
      obtain ⟨fuel, rfl⟩ := Nat.exists_eq_succ_of_ne_zero (Nat.ne_zero_of_lt fits)
      exact stringFrom_escape (escape?_of_pair hexHigh hexLow joined)
        (ih (Nat.lt_of_succ_lt_succ fits))

/-- A string is read up to its quote, whatever follows. -/
theorem stringFrom_eq_some_iff {s : Text} : stringFrom (t.length + 1) t = some (s, rest) ↔
    ∃ w, t = w ++ CodePoint.ofChar '"' :: rest ∧ Body s w := by
  refine ⟨body_of_stringFrom, ?_⟩
  rintro ⟨w, rfl, body⟩
  refine stringFrom_append body rest (Nat.lt_succ_of_le ?_)
  rw [List.length_append]
  exact Nat.le_add_right_of_le body.length_le

end Playground.Json
