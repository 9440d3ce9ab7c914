import Playground.Text.Utf8
/-!
# Percent escapes

A link may arrive with some of its characters percent-encoded. Undoing that
takes each maximal run of ASCII, replaces every percent sign that two
hexadecimal digits follow by the octet they name, and reads the octets of the
run as UTF-8, putting the replacement character for what is malformed. Other
code points stay as they are, and so does a percent sign without digits.
-/

namespace Playground.Percent

/-- The value of a hexadecimal digit. -/
def hexValue? (c : CodePoint) : Option Nat :=
  let n := c.val
  if 48 ≤ n ∧ n ≤ 57 then some (n - 48)
  else if 65 ≤ n ∧ n ≤ 70 then some (n - 55)
  else if 97 ≤ n ∧ n ≤ 102 then some (n - 87)
  else none

/-- The octet of an escape at the front of a run, with what follows it. -/
def escape? : Text → Option (UInt8 × Text)
  | p :: a :: b :: rest =>
    if p = CodePoint.ofChar '%' then
      match hexValue? a, hexValue? b with
      | some x, some y => some (.ofNat (x * 16 + y), rest)
      | _, _ => none
    else none
  | _ => none

/-- The octets of a run of ASCII, escapes undone. `skip` counts the code points of an escape that are
still to be passed over. -/
def octets (skip : Nat) : Text → Bytes
  | [] => []
  | c :: rest =>
    match skip with
    | n + 1 => octets n rest
    | 0 =>
      match escape? (c :: rest) with
      | some (b, _) => b :: octets 2 rest
      | none => .ofNat c.val :: octets 0 rest

/-- Undoes the escapes; `run` is the run of ASCII before the current position, latest first. -/
def decodeFrom (run : Text) : Text → Text
  | [] => Utf8.decodeLossy (octets 0 run.reverse)
  | c :: rest =>
    if c.val < 128 then decodeFrom (c :: run) rest
    else Utf8.decodeLossy (octets 0 run.reverse) ++ c :: decodeFrom [] rest

/-- A text with its percent escapes undone. -/
def decode (t : Text) : Text :=
  decodeFrom [] t

end Playground.Percent
