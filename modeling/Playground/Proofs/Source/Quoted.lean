import Playground.Proofs.Json.Strings
import Playground.Proofs.Source.Phrases
import Playground.Proofs.Text.Characters

/-!
# A JSON string is a string literal

In the escaped form a string is written with nothing but printable ASCII between
its quotes, and what is escaped is escaped in a way that literals know too. So
whatever the text is, the literal ends at the last quote and not before.
-/

namespace Playground

namespace Source

/-- A literal goes on behind these characters. -/
def Inside (u : List Char) : Prop :=
  ∃ steps ≤ u.length, ∀ fuel n rest,
    stringFrom '"' (fuel + steps) n (u ++ rest) = stringFrom '"' fuel (n + u.length) rest

theorem Inside.nil : Inside [] :=
  ⟨0, Nat.le_refl 0, fun _ _ _ => rfl⟩

theorem Inside.append {u v : List Char} (h : Inside u) (h' : Inside v) : Inside (u ++ v) := by
  obtain ⟨k, hk, first⟩ := h
  obtain ⟨l, hl, second⟩ := h'
  refine ⟨l + k, ?_, fun fuel n rest => ?_⟩
  · rw [List.length_append]
    omega
  · rw [List.append_assoc, ← Nat.add_assoc, first, second, List.length_append, Nat.add_assoc]

theorem Inside.flatMap {α : Type} {f : α → List Char} {l : List α} (h : ∀ a ∈ l, Inside (f a)) :
    Inside (l.flatMap f) := by
  induction l with
  | nil => exact .nil
  | cons a rest ih =>
      obtain ⟨first, later⟩ := List.forall_mem_cons.mp h
      exact first.append (ih later)

/-- A character that is neither a quote nor a backslash and ends no line. -/
theorem Inside.plain {c : Char} (quote : c ≠ '"') (backslash : c ≠ '\\') (feed : c ≠ '\n')
    (return_ : c ≠ '\r') : Inside [c] := by
  refine ⟨1, Nat.le_refl 1, fun fuel n rest => ?_⟩
  simp [stringFrom, quote, backslash, feed, return_]

/-- A backslash and what it escapes. -/
theorem Inside.escape {u : List Char} (h : ∀ rest, escape? (u ++ rest) = some u.length) :
    Inside ('\\' :: u) := by
  refine ⟨1, Nat.le_add_left 1 _, fun fuel n rest => ?_⟩
  simp [stringFrom, h, Nat.add_assoc, Nat.add_comm 1]

theorem isHexDigit_digitChar {n : Nat} (h : n < 16) : isHexDigit n.digitChar = true := by
  revert n
  decide

theorem inside_unicodeEscape {n : Nat} (h : n < 0x10000) :
    Inside (Json.unicodeEscape n).toCharsD := by
  have digit (k : Nat) : isHexDigit (k % 16).digitChar = true :=
    isHexDigit_digitChar (Nat.mod_lt _ (by decide))
  have first : isHexDigit (n / 4096).digitChar = true := isHexDigit_digitChar (by omega)
  have brace : (n / 4096).digitChar ≠ '\x7b' := by
    intro h
    rw [h] at first
    cases first
  have eq : (Json.unicodeEscape n).toCharsD = '\\' :: 'u' :: [(n / 4096).digitChar,
      (n / 256 % 16).digitChar, (n / 16 % 16).digitChar, (n % 16).digitChar] := by
    rw [Json.unicodeEscape, Text.toCharsD_append, Json.hexDigits_four h, Text.toCharsD_ofChars]
    rfl
  rw [eq]
  refine .escape fun rest => ?_
  have number : unicodeEscape? ('u' :: (n / 4096).digitChar :: (n / 256 % 16).digitChar ::
      (n / 16 % 16).digitChar :: (n % 16).digitChar :: rest) = some 5 := by
    unfold unicodeEscape?
    split
    · next h => simp_all
    · next h =>
        cases h
        simp [first, digit]
    · next h => exact absurd rfl (h _ _ _ _ _)
  exact number

theorem inside_escapeOne (c : CodePoint) : Inside (Json.escapeOne true c).toCharsD := by
  have written := Json.escaped_escapeOne true c
  generalize Json.escapeOne true c = w at written ⊢
  cases written with
  | short letter known =>
      have eq : Text.toCharsD [CodePoint.ofChar '\\', CodePoint.ofChar letter] = ['\\', letter] :=
        Text.toCharsD_ofChars ['\\', letter]
      have alone : ∀ letter ∈ "\"\\nrtfb".toList, ∀ rest, escape? (letter :: rest) = some 1 := by
        simp [escape?, isOctalDigit]
      rw [eq]
      exact .escape (alone letter known)
  | control low => exact inside_unicodeEscape (Nat.lt_trans low (by decide))
  | plain visible quote backslash seen =>
      have ascii : c.val < 127 := seen.resolve_left (by decide)
      have valid : c.val.isValidChar := .inl (by omega)
      obtain ⟨d, rfl⟩ : ∃ d : Char, c = CodePoint.ofChar d :=
        ⟨Char.ofNatAux c.val valid, rfl⟩
      have eq : Text.toCharsD [CodePoint.ofChar d] = [d] := Text.toCharsD_ofChars [d]
      rw [eq]
      refine .plain ?_ ?_ ?_ ?_
      · rintro rfl
        exact quote rfl
      · rintro rfl
        exact backslash rfl
      · rintro rfl
        exact visible (by decide)
      · rintro rfl
        exact visible (by decide)
  | unicode _ _ narrow => exact inside_unicodeEscape narrow
  | halves =>
      have := c.isLt
      rw [Text.toCharsD_append]
      exact (inside_unicodeEscape (by omega)).append (inside_unicodeEscape (by omega))

/-- The literal that writes a text ends at its last quote. -/
theorem string?_renderString (t : Text) (rest : List Char) :
    string? ((Json.renderString true t).toCharsD ++ rest) =
      some (Json.renderString true t).toCharsD.length := by
  have inside : Inside (t.flatMap fun c => (Json.escapeOne true c).toCharsD) :=
    .flatMap fun c _ => inside_escapeOne c
  have eq : (Json.renderString true t).toCharsD =
      '"' :: (t.flatMap fun c => (Json.escapeOne true c).toCharsD) ++ ['"'] := by
    show (CodePoint.ofChar '"' :: t.flatMap (Json.escapeOne true) ++ [_]).map _ = _
    rw [List.map_append, List.map_cons, List.map_flatMap]
    rfl
  obtain ⟨steps, le, read⟩ := inside
  rw [eq]
  generalize (t.flatMap fun c => (Json.escapeOne true c).toCharsD) = u at le read
  have enough : (u ++ '"' :: rest).length + 1 = (u.length + rest.length + 2 - steps) + steps := by
    simp only [List.length_append, List.length_cons]
    omega
  show stringFrom '"' ((u ++ ['"'] ++ rest).length + 1) 1 (u ++ ['"'] ++ rest) = _
  rw [List.append_assoc, List.singleton_append, enough, read]
  obtain ⟨fuel, hf⟩ : ∃ fuel, u.length + rest.length + 2 - steps = fuel + 1 :=
    ⟨u.length + rest.length + 1 - steps, by omega⟩
  rw [hf]
  simp [stringFrom]
  omega

end Source

end Playground
