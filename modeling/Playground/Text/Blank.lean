import Playground.Text
/-!
# White space around a value

Which code points count as blank when a value is trimmed. This is the wide set:
the controls that separate lines and records, every space of the Unicode
category of separators, and the two line separators.
-/

namespace Playground.CodePoint

/-- The code points that trimming removes. -/
def isBlank (c : CodePoint) : Bool :=
  let n := c.val
  (9 ≤ n && n ≤ 13) || (28 ≤ n && n ≤ 32) || n == 0x85 || n == 0xA0 || n == 0x1680 ||
    (0x2000 ≤ n && n ≤ 0x200A) || n == 0x2028 || n == 0x2029 || n == 0x202F ||
    n == 0x205F || n == 0x3000

end Playground.CodePoint

namespace Playground.Text

/-- A text without the blanks at its beginning. -/
def trimStart (t : Text) : Text :=
  t.dropWhile CodePoint.isBlank

/-- A text without the blanks at its end. -/
def trimEnd (t : Text) : Text :=
  (t.reverse.dropWhile CodePoint.isBlank).reverse

/-- A text without the blanks at either end. -/
def trim (t : Text) : Text :=
  trimEnd (trimStart t)

end Playground.Text
