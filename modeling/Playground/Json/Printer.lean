import Playground.Json
import Playground.Text.Quoted
/-!
# Writing JSON

There are three forms: the compact one in share links, which leaves everything
outside ASCII as it is; the spaced one on the compiler's input, in which
everything outside printable ASCII is escaped; and the indented one for people,
escaped in the same way. A code point beyond the first plane is escaped as a
surrogate pair, so an escaped pair and an escaped astral code point look alike.
-/

namespace Playground.Json

/-- How a value is written. -/
structure Style where
  /-- Escape every code point outside printable ASCII. -/
  ascii : Bool
  /-- What stands between items. -/
  comma : Text
  /-- What stands between a field's name and its value. -/
  colon : Text
  /-- Put each item on a line of its own, this far in for each level. -/
  indent : Option Nat := none

/-- The form without any blanks. -/
def Style.compact : Style := ⟨false, text ",", text ":", none⟩

/-- The form with a blank after each comma and colon. -/
def Style.spaced : Style := ⟨true, text ", ", text ": ", none⟩

/-- The form with one item on each line. -/
def Style.indented : Style := ⟨true, text ",", text ": ", some 2⟩

/-- A four-digit escape. -/
def unicodeEscape (n : Nat) : Text :=
  text "\\u" ++ Text.hexDigits 4 n

/-- One code point of a string. -/
def escapeOne (ascii : Bool) (c : CodePoint) : Text :=
  match c.val with
  | 34 => text "\\\""
  | 92 => text "\\\\"
  | 10 => text "\\n"
  | 13 => text "\\r"
  | 9 => text "\\t"
  | 12 => text "\\f"
  | 8 => text "\\b"
  | n =>
    if n < 32 then unicodeEscape n
    else if ascii = false ∨ n < 127 then [c]
    else if n < 0x10000 then unicodeEscape n
    else
      unicodeEscape (0xD800 + (n - 0x10000) / 1024) ++ unicodeEscape (0xDC00 + (n - 0x10000) % 1024)

/-- A string in quotes. -/
def renderString (ascii : Bool) (t : Text) : Text :=
  CodePoint.ofChar '"' :: t.flatMap (escapeOne ascii) ++ [CodePoint.ofChar '"']

/-- A number of double precision. -/
def renderNumber : Binary64 → Text
  | .nan => text "NaN"
  | .infinite false => text "Infinity"
  | .infinite true => text "-Infinity"
  | x => x.render

/-- The line break in front of an item at a level, if items have lines of their own. -/
def lineBreak (style : Style) (level : Nat) : Text :=
  match style.indent with
  | none => []
  | some width => CodePoint.ofChar '\n' :: List.replicate (width * level) (CodePoint.ofChar ' ')

mutual

/-- A value at a level of nesting. -/
def renderAt (style : Style) (level : Nat) : Json → Text
  | .null => text "null"
  | .bool b => text (if b then "true" else "false")
  | .int n => Text.ofInt n
  | .num x => renderNumber x
  | .str t => renderString style.ascii t
  | .arr [] => text "[]"
  | .arr (item :: items) =>
    text "[" ++ lineBreak style (level + 1) ++ renderAt style (level + 1) item ++
      renderItems style (level + 1) items ++ lineBreak style level ++ text "]"
  | .obj [] => text "\x7b\x7d"
  | .obj ((name, value) :: fields) =>
    text "\x7b" ++ lineBreak style (level + 1) ++ renderString style.ascii name ++ style.colon ++
      renderAt style (level + 1) value ++ renderFields style (level + 1) fields ++
      lineBreak style level ++ text "\x7d"

/-- The items after the first. -/
def renderItems (style : Style) (level : Nat) : List Json → Text
  | [] => []
  | item :: items =>
    style.comma ++ lineBreak style level ++ renderAt style level item ++ renderItems style level items

/-- The fields after the first. -/
def renderFields (style : Style) (level : Nat) : List (Text × Json) → Text
  | [] => []
  | (name, value) :: fields =>
    style.comma ++ lineBreak style level ++ renderString style.ascii name ++ style.colon ++
      renderAt style level value ++ renderFields style level fields

end

/-- A value as text. -/
def render (style : Style) (value : Json) : Text :=
  renderAt style 0 value

end Playground.Json
