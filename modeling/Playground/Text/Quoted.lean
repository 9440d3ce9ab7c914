import Playground.Text.Printable
/-!
# Quoted text in messages

A message shows a text in quotes. Single quotes are used, or double quotes for
a text that has a single quote and no double one. A backslash and the quote in
use are escaped, and so is every code point without a visible form, by the
shortest of the escapes with two, four or eight hexadecimal digits.
-/

namespace Playground.Text

/-- A number in hexadecimal, in lower case, filled with zeros to `width` digits. -/
def hexDigits (width n : Nat) : Text :=
  let digits := Nat.toDigits 16 n
  ofChars (List.replicate (width - digits.length) '0' ++ digits)

/-- One code point of a text that stands between `quote` marks. -/
def quoteOne (quote : CodePoint) (c : CodePoint) : Text :=
  if c = quote ∨ c = CodePoint.ofChar '\\' then [CodePoint.ofChar '\\', c]
  else if c.val = 9 then text "\\t"
  else if c.val = 10 then text "\\n"
  else if c.val = 13 then text "\\r"
  else if c.isPrintable then [c]
  else if c.val < 0x100 then text "\\x" ++ hexDigits 2 c.val
  else if c.val < 0x10000 then text "\\u" ++ hexDigits 4 c.val
  else text "\\U" ++ hexDigits 8 c.val

/-- A text in quotes. -/
def quoted (t : Text) : Text :=
  let single := CodePoint.ofChar '\''
  let double := CodePoint.ofChar '"'
  let quote := if single ∈ t ∧ double ∉ t then double else single
  quote :: t.flatMap (quoteOne quote) ++ [quote]

end Playground.Text
