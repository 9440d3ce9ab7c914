import Playground.Number.Binary64
/-!
# JSON values

Share links, the compiler's answers and the HTTP bodies are JSON. Integers are
kept apart from numbers of double precision, because what is accepted as an
integer depends on how it was written. Objects keep their fields in order of
first appearance and have no two fields of one name.
-/

namespace Playground

/-- A JSON value. -/
inductive Json where
  | null
  | bool (b : Bool)
  | int (n : Int)
  | num (x : Binary64)
  | str (t : Text)
  | arr (items : List Json)
  | obj (fields : List (Text × Json))
deriving Repr

namespace Json

/-- The field of an object with this name. -/
def field? (fields : List (Text × Json)) (name : Text) : Option Json :=
  fields.lookup name

end Json

end Playground
