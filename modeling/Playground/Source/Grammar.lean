import Playground.Source.Reader
/-!
# The rules of the grammar

The grammar is that of a typed dialect of a scripting language without markup.
It is read with little regard for precedence, because only the outline of a
module is wanted: `a + b = c` is accepted like `a + (b = c)`. What a
construct may stand for is kept instead, since an object may turn out to be a
pattern when an arrow or an assignment follows.

Rules call each other through a `Grammar`, a reader for every rule, and only
the reader of whole modules ties the knot.
-/

namespace Playground.Source

/-- What an expression may stand for. -/
structure Shape where
  /-- It is a value by itself. -/
  value : Bool := true
  /-- It may be assigned to, and then binds this. -/
  target : Option Pattern := none
  /-- It is a target with a default. -/
  defaulted : Option Pattern := none
  /-- It may be updated in place. -/
  updatable : Bool := false
  /-- It stands in parentheses. -/
  parenthesized : Bool := false
  /-- It is a string literal and nothing else. -/
  literal : Option ImportSite := none

namespace Shape

/-- A property of something. -/
def property : Shape := { target := some .other, updatable := true }

/-- A name. -/
def named (name : Text) : Shape := { target := some (.name name), updatable := true }

/-- What it binds as a part of a pattern. -/
def part? (s : Shape) : Option Pattern := s.target <|> s.defaulted

end Shape

/-- Where an expression stands. -/
structure Place where
  /-- How the construct may end in which it stands. -/
  ending : Ending := .never
  /-- It names the class that another one extends, so a brace after it opens that class. -/
  heritage : Bool := false
  /-- A colon after it belongs to a conditional, and does not begin the type of a function. -/
  beforeColon : Bool := false

/-- A place within brackets. -/
def Place.inner : Place := {}

/-- The rules that call each other. -/
inductive Rule where
  | expression (place : Place)
  | type (ending : Ending)
  | parameters
  | statement
  | declaration

/-- What a rule tells. -/
def Rule.Out : Rule → Type
  | expression _ => Shape
  | declaration => Declaration
  | _ => Unit

/-- A reader for every rule. -/
abbrev Grammar := (r : Rule) → Reader r.Out

namespace Grammar

/-- An expression without a comma. -/
def expression (g : Grammar) (place : Place) : Reader Shape := g (.expression place)

/-- An expression that is a value. -/
def valueAt (g : Grammar) (place : Place) : Reader Shape := do
  let s ← g.expression place
  guard s.value
  return s

/-- A value within brackets. -/
def value (g : Grammar) : Reader Shape := g.valueAt .inner

/-- Values with commas between them. -/
def values (g : Grammar) (place : Place) : Reader Shape := do
  let first ← g.valueAt place
  let more ← Reader.many (do Reader.mark ","; g.valueAt place)
  return if more.isEmpty then first else {}

/-- A type. -/
def type (g : Grammar) (ending : Ending) : Reader Unit := g (.type ending)

/-- The parameters of a function, in parentheses. -/
def parameters (g : Grammar) : Reader Unit := g .parameters

/-- A statement. -/
def statement (g : Grammar) : Reader Unit := g .statement

/-- A declaration. -/
def declaration (g : Grammar) : Reader Declaration := g .declaration

/-- Statements in braces. -/
def block (g : Grammar) : Reader Unit := do
  Reader.mark "\x7b"
  let _ ← Reader.many g.statement
  Reader.mark "\x7d"

end Grammar

end Playground.Source
