import Playground.Text.Utf8
/-!
# Octets in one of three encodings

A tool may print its answer in UTF-8, UTF-16 or UTF-32. A mark at the front
says which; without one the zeros among the first octets do, because the first
two characters of the answer are ASCII. Surrogates that belong to no pair are
let through in all three.
-/

namespace Playground.Encoding

/-- The order of the octets of a unit. -/
inductive Order where
  | bigEndian
  | littleEndian
deriving DecidableEq, Repr

/-- An encoding, and how many octets at the front are a mark. -/
inductive Scheme where
  | utf8 (mark : Nat)
  | utf16 (mark : Nat) (order : Order)
  | utf32 (mark : Nat) (order : Order)
deriving DecidableEq, Repr

/-- The encoding that the first octets announce. -/
def detect (bytes : Bytes) : Scheme :=
  match bytes with
  | 0 :: 0 :: 0xFE :: 0xFF :: _ => .utf32 4 .bigEndian
  | 0xFF :: 0xFE :: 0 :: 0 :: _ => .utf32 4 .littleEndian
  | 0xFE :: 0xFF :: _ => .utf16 2 .bigEndian
  | 0xFF :: 0xFE :: _ => .utf16 2 .littleEndian
  | 0xEF :: 0xBB :: 0xBF :: _ => .utf8 3
  | a :: b :: c :: d :: _ =>
    if a = 0 then (if b = 0 then .utf32 0 .bigEndian else .utf16 0 .bigEndian)
    else if b = 0 then (if c = 0 ∧ d = 0 then .utf32 0 .littleEndian else .utf16 0 .littleEndian)
    else .utf8 0
  | [a, b] =>
    if a = 0 then .utf16 0 .bigEndian else if b = 0 then .utf16 0 .littleEndian else .utf8 0
  | _ => .utf8 0

/-- Pairs of octets as units; an octet left over is a fault. -/
def units16 (order : Order) : Bytes → Option (List Nat)
  | [] => some []
  | [_] => none
  | a :: b :: rest =>
    let unit := match order with
      | .bigEndian => a.toNat * 256 + b.toNat
      | .littleEndian => b.toNat * 256 + a.toNat
    (units16 order rest).map (unit :: ·)

/-- Groups of four octets as units. -/
def units32 (order : Order) : Bytes → Option (List Nat)
  | [] => some []
  | a :: b :: c :: d :: rest =>
    let unit := match order with
      | .bigEndian => ((a.toNat * 256 + b.toNat) * 256 + c.toNat) * 256 + d.toNat
      | .littleEndian => ((d.toNat * 256 + c.toNat) * 256 + b.toNat) * 256 + a.toNat
    (units32 order rest).map (unit :: ·)
  | _ => none

/-- Joins a high surrogate with a low one that follows it; `high` is a high one that was read. -/
def joinPairs (high : Option Nat) : List Nat → List Nat
  | [] => high.toList
  | u :: rest =>
    match high with
    | some h =>
      if 0xDC00 ≤ u ∧ u ≤ 0xDFFF then
        (0x10000 + (h - 0xD800) * 1024 + (u - 0xDC00)) :: joinPairs none rest
      else if 0xD800 ≤ u ∧ u ≤ 0xDBFF then h :: joinPairs (some u) rest
      else h :: u :: joinPairs none rest
    | none =>
      if 0xD800 ≤ u ∧ u ≤ 0xDBFF then joinPairs (some u) rest else u :: joinPairs none rest

/-- The text of some octets in a given encoding. -/
def decodeAs (scheme : Scheme) (bytes : Bytes) : Option Text :=
  match scheme with
  | .utf8 mark => (Utf8.decodeLoose (bytes.drop mark)).toOption
  | .utf16 mark order =>
    (units16 order (bytes.drop mark)).bind fun units =>
      (joinPairs none units).mapM CodePoint.ofNat?
  | .utf32 mark order =>
    (units32 order (bytes.drop mark)).bind fun units => units.mapM CodePoint.ofNat?

/-- The text of some octets in the encoding that they announce. -/
def decode (bytes : Bytes) : Option Text :=
  decodeAs (detect bytes) bytes

end Playground.Encoding
