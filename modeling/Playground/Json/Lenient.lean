import Playground.Json
import Playground.Text.Blank
/-!
# Lenient reading of scalars

What other programs write is read leniently. An integer may be a truth value,
a number without fraction or a text of digits; a truth value may be 0 or 1 or
one of the usual words. A text must be a text. Reading a record counts the
fields that offend, so that a refusal can say how many there are.
-/

namespace Playground.Json

/-! ## Integers -/

/-- The blanks that may stand around an integer. -/
def isPadding (c : CodePoint) : Bool :=
  c.isBlank && !(28 ≤ c.val && c.val ≤ 31)

/-- The part of an unsigned numeral after its leading zeros, of which one is kept when nothing else
stands in front of the end or of a point. Underscores may stand singly among them. A minus
sign ends the search. `afterZero` tells whether the code point before was a zero, and
`started` whether there was one. -/
def dropZeros (started afterZero : Bool) : Text → Option Text
  | [] => if afterZero then some (text "0") else none
  | c :: rest =>
    let n := c.val
    if n = 48 then dropZeros true true rest
    else if 49 ≤ n ∧ n ≤ 57 then some (c :: rest)
    else if n = 95 ∧ afterZero then dropZeros true false rest
    else if n = 46 ∧ afterZero then some (text "0" ++ c :: rest)
    else if n = 45 ∧ started = false then some (c :: rest)
    else none

/-- A numeral without a fraction of zeros. -/
def dropFraction (t : Text) : Text :=
  let point := CodePoint.ofChar '.'
  let fraction := (t.dropWhile (· ≠ point)).drop 1
  if fraction.all (· = CodePoint.ofChar '0') then t.takeWhile (· ≠ point) else t

/-- A numeral without its underscores, which must stand singly and not at an end. -/
def dropUnderscores (t : Text) : Option Text :=
  let mark := CodePoint.ofChar '_'
  if t.head? = some mark ∨ t.getLast? = some mark ∨ t.contains [mark, mark] then none
  else some (t.filter (· ≠ mark))

/-- The natural number that decimal digits without a leading zero write. -/
def plainNatural? (t : Text) : Option Nat :=
  if t.isEmpty ∨ (1 < t.length ∧ t.head? = some (CodePoint.ofChar '0')) then none
  else
    t.foldlM
      (fun acc c => if 48 ≤ c.val ∧ c.val ≤ 57 then some (acc * 10 + (c.val - 48)) else none) 0

/-- The integer that decimal digits with an optional minus sign write. -/
def plainInteger? : Text → Option Int
  | [] => none
  | c :: rest =>
    if c = CodePoint.ofChar '-' then (plainNatural? rest).map fun n => -Int.ofNat n
    else (plainNatural? (c :: rest)).map Int.ofNat

/-- The integer that a text shows: blanks around it, a plus sign in front of it, zeros in front and a
fraction of zeros are passed over. It has at most 4300 code points. -/
def integerOfText? (t : Text) : Option Int :=
  let t := ((t.dropWhile isPadding).reverse.dropWhile isPadding).reverse
  let unsigned := match t with
    | c :: rest =>
      if c = CodePoint.ofChar '+' then
        if rest.head? = some (CodePoint.ofChar '-') then [] else rest
      else t
    | [] => []
  if 4300 < t.length then none
  else (dropZeros false false unsigned).bind fun t =>
    (dropUnderscores (dropFraction t)).bind plainInteger?

/-- The integer that a value can be taken for. A number must lie within 64 bits. -/
def lenientInteger? : Json → Option Int
  | .int n => some n
  | .bool b => some (if b then 1 else 0)
  | .num x =>
    x.integral?.bind fun n => if n.natAbs < Nat.pow 2 63 then some n else none
  | .str t => integerOfText? t
  | _ => none

/-! ## Truth values -/

/-- The words for no and for yes. -/
def noWords : List Text := [text "0", text "off", text "f", text "false", text "n", text "no"]

@[inherit_doc noWords]
def yesWords : List Text := [text "1", text "on", text "t", text "true", text "y", text "yes"]

/-- The truth value that a word stands for, in either case. -/
def flagOfText? (t : Text) : Option Bool :=
  let word := t.map CodePoint.lowerAscii
  if noWords.contains word then some false
  else if yesWords.contains word then some true
  else none

/-- The truth value that a value can be taken for. -/
def lenientFlag? : Json → Option Bool
  | .bool b => some b
  | .int 0 => some false
  | .int 1 => some true
  | .num x =>
    match x.integral? with
    | some 0 => some false
    | some 1 => some true
    | _ => none
  | .str t => flagOfText? t
  | _ => none

/-! ## Records -/

/-- A value that was read, or how many fields stand in the way. -/
abbrev Checked (α : Type) := Except Nat α

namespace Checked

/-- A scalar; one that cannot be taken counts once. -/
def ofOption {α : Type} : Option α → Checked α
  | some a => .ok a
  | none => .error 1

/-- How many fields offend. -/
def offences {α : Type} : Checked α → Nat
  | .ok _ => 0
  | .error n => n

/-- Two parts of a record; their offences add up. -/
def both {α β : Type} : Checked α → Checked β → Checked (α × β)
  | .ok a, .ok b => .ok (a, b)
  | a, b => .error (a.offences + b.offences)

/-- The items of a list; their offences add up. -/
def all {α : Type} : List (Checked α) → Checked (List α)
  | [] => .ok []
  | a :: rest =>
    match both a (all rest) with
    | .ok (a, as) => .ok (a :: as)
    | .error n => .error n

end Checked

/-- The text that a value is. -/
def text? : Json → Option Text
  | .str t => some t
  | _ => none

/-- The first of the names that is a field, with its value. -/
def firstField? (fields : List (Text × Json)) (names : List String) : Option Json :=
  names.findSome? fun name => field? fields (text name)

/-- A required field under one of its names. -/
def required {α : Type} (fields : List (Text × Json)) (names : List String) (read : Json → Option α) :
    Checked α :=
  Checked.ofOption ((firstField? fields names).bind read)

/-- A list under one of its names, empty when the field is missing or null. -/
def listOf {α : Type} (fields : List (Text × Json)) (names : List String)
    (read : Json → Checked α) : Checked (List α) :=
  match firstField? fields names with
  | none | some .null => .ok []
  | some (.arr items) => Checked.all (items.map read)
  | some _ => .error 1

/-- A record; what is no record counts once. -/
def record {α : Type} (read : List (Text × Json) → Checked α) : Json → Checked α
  | .obj fields => read fields
  | _ => .error 1

end Playground.Json
