import Playground.Json
import Playground.Text.Quoted
/-!
# Values in messages

A message that refuses a value shows it. Texts are quoted, the absent value and
the truth values are written with a capital letter, and collections show their
members.
-/

namespace Playground.Json

mutual

/-- A value as a message shows it. -/
def shown : Json → Text
  | .null => text "None"
  | .bool b => text (if b then "True" else "False")
  | .int n => Text.ofInt n
  | .num x => x.render
  | .str t => t.quoted
  | .arr [] => text "[]"
  | .arr (item :: items) => text "[" ++ shown item ++ shownItems items ++ text "]"
  | .obj [] => text "\x7b\x7d"
  | .obj ((name, value) :: fields) =>
    text "\x7b" ++ name.quoted ++ text ": " ++ shown value ++ shownFields fields ++ text "\x7d"

/-- The items after the first. -/
def shownItems : List Json → Text
  | [] => []
  | item :: items => text ", " ++ shown item ++ shownItems items

/-- The fields after the first. -/
def shownFields : List (Text × Json) → Text
  | [] => []
  | (name, value) :: fields =>
    text ", " ++ name.quoted ++ text ": " ++ shown value ++ shownFields fields

end

end Playground.Json
