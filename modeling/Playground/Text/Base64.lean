import Playground.Text.Utf8
/-!
# Base64 in links

Octets are written in the alphabet that is safe in a URL, without padding.
Reading is strict about what stands between the digits and lenient about the
two alphabets: `+` reads as `-` and `/` as `_`. Padding may be complete,
partial or missing.
-/

namespace Playground.Base64

/-- The digit for a value below 64. -/
def digit (n : Nat) : CodePoint :=
  if h : n < 26 then ⟨65 + n, by omega⟩
  else if h : n < 52 then ⟨97 + (n - 26), by omega⟩
  else if h : n < 62 then ⟨48 + (n - 52), by omega⟩
  else if n = 62 then CodePoint.ofChar '-'
  else CodePoint.ofChar '_'

/-- The value of a digit of either alphabet. -/
def value? (c : CodePoint) : Option Nat :=
  let n := c.val
  if 65 ≤ n ∧ n ≤ 90 then some (n - 65)
  else if 97 ≤ n ∧ n ≤ 122 then some (n - 97 + 26)
  else if 48 ≤ n ∧ n ≤ 57 then some (n - 48 + 52)
  else if n = 43 ∨ n = 45 then some 62
  else if n = 47 ∨ n = 95 then some 63
  else none

/-- Octets as digits, four for each group of three and two or three for a last short group. -/
def encode : Bytes → Text
  | a :: b :: c :: rest =>
    let n := a.toNat * 65536 + b.toNat * 256 + c.toNat
    digit (n / 262144) :: digit (n / 4096 % 64) :: digit (n / 64 % 64) :: digit (n % 64) ::
      encode rest
  | [a, b] =>
    let n := a.toNat * 256 + b.toNat
    [digit (n / 1024), digit (n / 16 % 64), digit (n % 16 * 4)]
  | [a] => [digit (a.toNat / 4), digit (a.toNat % 4 * 16)]
  | [] => []

/-- Digits as octets. A last group has two or three digits; the bits that it has over are dropped. -/
def decodeDigits : List Nat → Option Bytes
  | a :: b :: c :: d :: rest =>
    let n := a * 262144 + b * 4096 + c * 64 + d
    (decodeDigits rest).map fun more =>
      .ofNat (n / 65536) :: .ofNat (n / 256 % 256) :: .ofNat (n % 256) :: more
  | [a, b, c] =>
    let n := a * 1024 + b * 16 + c / 4
    some [.ofNat (n / 256), .ofNat (n % 256)]
  | [a, b] => some [.ofNat (a * 4 + b / 16)]
  | [_] => none
  | [] => some []

/-- The padding sign. -/
def pad : CodePoint := CodePoint.ofChar '='

/-- Fills a token with padding to a multiple of four. -/
def padded (t : Text) : Text :=
  t ++ List.replicate ((4 - t.length % 4) % 4) pad

/-- Whether `count` padding signs may follow `digits` digits at the end of a padded token. A short
last group is filled to four; after complete groups the padding of an empty group is
passed over, provided that there are digits at all. -/
def paddingFits (digits count : Nat) : Bool :=
  match digits % 4 with
  | 0 => count == 0 || digits != 0
  | r => r + count == 4

/-- The octets that a token stands for. -/
def decode (t : Text) : Option Bytes :=
  let full := padded t
  let digits := full.takeWhile (· ≠ pad)
  let rest := full.drop digits.length
  if rest.all (· = pad) && paddingFits digits.length rest.length then
    (digits.mapM value?).bind decodeDigits
  else none

end Playground.Base64
