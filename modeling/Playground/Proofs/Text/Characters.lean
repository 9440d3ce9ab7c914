import Mathlib.Logic.Function.Basic
import Playground.Text

/-!
# Characters and code points

A character is the only one with its code point. So what is written with characters,
such as a number, can be told from the code points.
-/

namespace Playground

theorem CodePoint.toCharD_ofChar (c : Char) : (CodePoint.ofChar c).toCharD = c := by
  have valid : c.toNat.isValidChar := c.valid
  unfold toCharD toChar?
  rw [dif_pos (show (CodePoint.ofChar c).val.isValidChar from valid)]
  have back := Char.ofNat_toNat c
  rwa [Char.ofNat, dif_pos valid] at back

namespace Text

theorem toCharsD_ofChars (cs : List Char) : (ofChars cs).toCharsD = cs := by
  rw [toCharsD, ofChars, List.map_map]
  exact (List.map_congr_left fun c _ => CodePoint.toCharD_ofChar c).trans (List.map_id cs)

theorem toCharsD_text (s : String) : (text s).toCharsD = s.toList :=
  toCharsD_ofChars s.toList

theorem toCharsD_append (s t : Text) : (s ++ t).toCharsD = s.toCharsD ++ t.toCharsD :=
  List.map_append

theorem ofChars_injective : Function.Injective ofChars :=
  Function.LeftInverse.injective toCharsD_ofChars

theorem ofNat_injective : Function.Injective ofNat := by
  intro m n h
  have read := congrArg (Nat.ofDigitChars 10 · 0) (ofChars_injective h)
  simpa only [Nat.ofDigitChars_ten_toDigits] using read

end Text

end Playground
