import Playground.Json
import Playground.Ordered
/-!
# Reading JSON

The grammar is the usual one with three extensions: `NaN`, `Infinity` and
`-Infinity` are numbers, an escaped surrogate may stand alone, and of fields
with one name the last counts. Two limits keep the reader safe: an integer has
at most 4300 digits, and values nest at most `maxDepth` deep. What goes beyond
a limit is told apart from what is malformed.
-/

namespace Playground.Json

/-- Why a text is not read. -/
inductive Fault where
  | malformed
  /-- An integer has more than `maxDigits` digits. -/
  | tooLong
  /-- The nesting goes below `maxDepth`; the flag says whether an array does it. -/
  | tooDeep (inArray : Bool)
deriving DecidableEq, Repr

/-- How deep values may nest. -/
def maxDepth : Nat := 960

/-- How many digits an integer may have. -/
def maxDigits : Nat := 4300

/-- Drops blanks. -/
def skipBlanks : Text → Text
  | [] => []
  | c :: rest =>
    if c.val = 32 ∨ c.val = 10 ∨ c.val = 13 ∨ c.val = 9 then skipBlanks rest else c :: rest

/-- The value of an ASCII digit. -/
def digitValue? (c : CodePoint) : Option Nat :=
  if 48 ≤ c.val ∧ c.val ≤ 57 then some (c.val - 48) else none

/-- The value of a hexadecimal digit. -/
def hexValue? (c : CodePoint) : Option Nat :=
  let n := c.val
  if 48 ≤ n ∧ n ≤ 57 then some (n - 48)
  else if 65 ≤ n ∧ n ≤ 70 then some (n - 55)
  else if 97 ≤ n ∧ n ≤ 102 then some (n - 87)
  else none

/-- Four hexadecimal digits as a code point. -/
def hex4? (a b c d : CodePoint) : Option CodePoint :=
  match hexValue? a, hexValue? b, hexValue? c, hexValue? d with
  | some a, some b, some c, some d => CodePoint.ofNat? (((a * 16 + b) * 16 + c) * 16 + d)
  | _, _, _, _ => none

/-- The code point of a surrogate pair. -/
def joinPair? (high low : CodePoint) : Option CodePoint :=
  if 0xD800 ≤ high.val ∧ high.val ≤ 0xDBFF ∧ 0xDC00 ≤ low.val ∧ low.val ≤ 0xDFFF then
    CodePoint.ofNat? (0x10000 + (high.val - 0xD800) * 1024 + (low.val - 0xDC00))
  else none

/-- The code point that a one-letter escape stands for. -/
def shortEscape? (c : CodePoint) : Option CodePoint :=
  match c.val with
  | 34 => some c
  | 92 => some c
  | 47 => some c
  | 98 => some (CodePoint.ofChar '\x08')
  | 102 => some (CodePoint.ofChar '\x0c')
  | 110 => some (CodePoint.ofChar '\n')
  | 114 => some (CodePoint.ofChar '\r')
  | 116 => some (CodePoint.ofChar '\t')
  | _ => none

/-- What a backslash begins: the code point that it stands for and what follows the escape. An
escaped high surrogate takes an escaped low one that follows it. -/
def escape? : Text → Option (CodePoint × Text)
  | [] => none
  | c :: rest =>
    if c.val = 117 then
      match rest with
      | a :: b :: d :: e :: rest =>
        match hex4? a b d e with
        | none => none
        | some high =>
          match rest with
          | s :: u :: a :: b :: d :: e :: more =>
            if s.val = 92 ∧ u.val = 117 then
              match (hex4? a b d e).bind (joinPair? high) with
              | some whole => some (whole, more)
              | none => some (high, rest)
            else some (high, rest)
          | _ => some (high, rest)
      | _ => none
    else (shortEscape? c).map fun p => (p, rest)

/-- The rest of a string after its opening quote, with what follows the closing one. Every escape is
longer than what it stands for, so the text's length bounds the steps. -/
def stringFrom : Nat → Text → Option (Text × Text)
  | 0, _ => none
  | _ + 1, [] => none
  | fuel + 1, c :: rest =>
    if c.val = 34 then some ([], rest)
    else if c.val < 32 then none
    else if c.val = 92 then
      match escape? rest with
      | none => none
      | some (p, more) => (stringFrom fuel more).map fun (t, after) => (p :: t, after)
    else (stringFrom fuel rest).map fun (t, after) => (c :: t, after)

/-- The digits at the front of a text, with what follows them. -/
def digitRun : Text → List Nat × Text
  | [] => ([], [])
  | c :: rest =>
    match digitValue? c with
    | some d =>
      let (ds, after) := digitRun rest
      (d :: ds, after)
    | none => ([], c :: rest)

/-- The number that digits write. -/
def ofDigits (ds : List Nat) : Nat :=
  ds.foldl (fun acc d => acc * 10 + d) 0

/-- A fraction: a point and at least one digit. -/
def fraction? : Text → Option (List Nat × Text)
  | [] => none
  | c :: rest =>
    if c.val = 46 then
      match digitRun rest with
      | ([], _) => none
      | found => some found
    else none

/-- An exponent: a letter, a sign perhaps, and at least one digit. -/
def exponent? : Text → Option (Int × Text)
  | [] => none
  | c :: rest =>
    if c.val = 101 ∨ c.val = 69 then
      let (negative, rest) := match rest with
        | s :: more =>
          if s.val = 45 then (true, more) else if s.val = 43 then (false, more) else (false, rest)
        | [] => (false, rest)
      match digitRun rest with
      | ([], _) => none
      | (ds, after) =>
        let n := Int.ofNat (ofDigits ds)
        some (if negative then -n else n, after)
    else none

/-- A number without its sign. A leading zero stands alone. -/
def number (negative : Bool) (t : Text) : Except Fault (Json × Text) :=
  let whole : List Nat × Text := match t with
    | c :: rest => if c.val = 48 then ([0], rest) else digitRun t
    | [] => ([], [])
  match whole with
  | ([], _) => .error .malformed
  | (ds, rest) =>
    match fraction? rest, exponent? ((fraction? rest).elim rest Prod.snd) with
    | none, none =>
      if maxDigits < ds.length then .error .tooLong
      else
        let n := Int.ofNat (ofDigits ds)
        .ok (.int (if negative then -n else n), rest)
    | fraction, exponent =>
      let places := fraction.elim [] Prod.fst
      let after := exponent.elim (fraction.elim rest Prod.snd) Prod.snd
      let power := exponent.elim 0 Prod.fst - Int.ofNat places.length
      .ok (.num (Binary64.ofDecimal negative (ofDigits (ds ++ places)) power), after)

/-- The words that are values. -/
def words : List (Text × Json) := [
  (text "null", .null), (text "true", .bool true), (text "false", .bool false),
  (text "NaN", .num .nan), (text "Infinity", .num (.infinite false)),
  (text "-Infinity", .num (.infinite true))]

/-- A word or a number at the front of a text. -/
def atom (t : Text) : Except Fault (Json × Text) :=
  match words.findSome? fun (word, value) => (Text.after? word t).map fun rest => (value, rest) with
  | some found => .ok found
  | none =>
    match t with
    | c :: rest => if c.val = 45 then number true rest else number false t
    | [] => .error .malformed

mutual

/-- A value at the front of a text, `depth` more levels being allowed. -/
def valueFrom (fuel depth : Nat) (t : Text) : Except Fault (Json × Text) :=
  match fuel with
  | 0 => .error .malformed
  | fuel + 1 =>
    match t with
    | [] => .error .malformed
    | c :: rest =>
      if c.val = 34 then
        match stringFrom (rest.length + 1) rest with
        | some (s, after) => .ok (.str s, after)
        | none => .error .malformed
      else if c.val = 91 then
        match depth with
        | 0 => .error (.tooDeep true)
        | depth + 1 =>
          match skipBlanks rest with
          | d :: after =>
            if d.val = 93 then .ok (.arr [], after)
            else
              match itemsFrom fuel depth (d :: after) with
              | .ok (items, after) => .ok (.arr items, after)
              | .error e => .error e
          | [] => .error .malformed
      else if c.val = 123 then
        match depth with
        | 0 => .error (.tooDeep false)
        | depth + 1 =>
          match skipBlanks rest with
          | d :: after =>
            if d.val = 125 then .ok (.obj [], after)
            else
              match fieldsFrom fuel depth [] (d :: after) with
              | .ok (fields, after) => .ok (.obj fields, after)
              | .error e => .error e
          | [] => .error .malformed
      else atom t

/-- The items of an array from the front of one, up to the closing bracket. -/
def itemsFrom (fuel depth : Nat) (t : Text) : Except Fault (List Json × Text) :=
  match fuel with
  | 0 => .error .malformed
  | fuel + 1 =>
    match valueFrom fuel depth t with
    | .error e => .error e
    | .ok (value, rest) =>
      match skipBlanks rest with
      | [] => .error .malformed
      | c :: rest =>
        if c.val = 93 then .ok ([value], rest)
        else if c.val = 44 then
          match itemsFrom fuel depth (skipBlanks rest) with
          | .ok (more, after) => .ok (value :: more, after)
          | .error e => .error e
        else .error .malformed

/-- The fields of an object from the front of a name, up to the closing brace; `before` holds the
fields so far. -/
def fieldsFrom (fuel depth : Nat) (before : List (Text × Json)) (t : Text) :
    Except Fault (List (Text × Json) × Text) :=
  match fuel with
  | 0 => .error .malformed
  | fuel + 1 =>
    match t with
    | [] => .error .malformed
    | q :: rest =>
      if q.val ≠ 34 then .error .malformed
      else
        match stringFrom (rest.length + 1) rest with
        | none => .error .malformed
        | some (name, rest) =>
          match skipBlanks rest with
          | [] => .error .malformed
          | colon :: rest =>
            if colon.val ≠ 58 then .error .malformed
            else
              match valueFrom fuel depth (skipBlanks rest) with
              | .error e => .error e
              | .ok (value, rest) =>
                let fields := Ordered.put name value before
                match skipBlanks rest with
                | [] => .error .malformed
                | c :: rest =>
                  if c.val = 125 then .ok (fields, rest)
                  else if c.val = 44 then fieldsFrom fuel depth fields (skipBlanks rest)
                  else .error .malformed

end

/-- The value that a whole text writes. -/
def parse (t : Text) : Except Fault Json :=
  match valueFrom (2 * t.length + 2) maxDepth (skipBlanks t) with
  | .error e => .error e
  | .ok (value, rest) => if (skipBlanks rest).isEmpty then .ok value else .error .malformed

end Playground.Json
