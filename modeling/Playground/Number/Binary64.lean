import Playground.Text
/-!
# Binary fractions of double precision

A number with a fraction or an exponent is held in double precision. The value
is kept as an exact product `mantissa * 2 ^ exponent`, so reading a decimal and
writing one are both plain integer arithmetic: reading rounds to the nearest
representable value, a tie to the even mantissa, and writing picks the shortest
decimal that reads back, the nearest one among those.
-/

namespace Playground

/-- A number of double precision. A finite one has a mantissa below `2 ^ 53` and an exponent of at
least `-1074`; the mantissa is below `2 ^ 52` only at the least exponent. -/
inductive Binary64 where
  | nan
  | infinite (negative : Bool)
  | finite (negative : Bool) (mantissa : Nat) (exponent : Int)
deriving DecidableEq, Repr

namespace Binary64

/-- The quotient nearest to `num / den`, a tie going to the even one. -/
def roundDiv (num den : Nat) : Nat :=
  let q := num / den
  let twice := 2 * (num % den)
  if twice < den then q
  else if den < twice then q + 1
  else q + q % 2

/-- `num / (den * 2 ^ e)`, rounded. -/
def scaled (num den : Nat) (e : Int) : Nat :=
  match e with
  | .ofNat k => roundDiv num (den * Nat.pow 2 k)
  | .negSucc k => roundDiv (num * Nat.pow 2 (k + 1)) den

/-- The representable number nearest to `num / den`. -/
def ofRatio (negative : Bool) (num den : Nat) : Binary64 :=
  if num = 0 then .finite negative 0 (-1074)
  else
    let guess : Int := Int.ofNat num.log2 - Int.ofNat den.log2 - 53
    let low := max guess (-1074)
    let e := if scaled num den low < Nat.pow 2 53 then low else low + 1
    let m := scaled num den e
    let (m, e) := if m < Nat.pow 2 53 then (m, e) else (m / 2, e + 1)
    if 971 < e then .infinite negative else .finite negative m e

/-- The representable number nearest to `digits * 10 ^ exponent`. Exponents far outside the range
are settled without computing the power. -/
def ofDecimal (negative : Bool) (digits : Nat) (exponent : Int) : Binary64 :=
  let magnitude := exponent + Int.ofNat (Nat.toDigits 10 digits).length
  if digits = 0 ∨ magnitude < -400 then .finite negative 0 (-1074)
  else if 400 < magnitude then .infinite negative
  else
    match exponent with
    | .ofNat k => ofRatio negative (digits * Nat.pow 10 k) 1
    | .negSucc k => ofRatio negative digits (Nat.pow 10 (k + 1))

/-- The integer that a number is, when it has no fraction. -/
def integral? : Binary64 → Option Int
  | .finite negative m e =>
    let signed (n : Nat) : Int := if negative then -Int.ofNat n else Int.ofNat n
    match e with
    | .ofNat k => some (signed (m * Nat.pow 2 k))
    | .negSucc k => if m % Nat.pow 2 (k + 1) = 0 then some (signed (m / Nat.pow 2 (k + 1))) else none
  | _ => none

/-! ## Writing -/

/-- Whether `digits * 10 ^ power` is read as the number `m * 2 ^ e`. -/
def readsBack (m : Nat) (e : Int) (digits : Nat) (power : Int) : Bool :=
  ofDecimal false digits power == .finite false m e

/-- The greatest `k` with `10 ^ k ≤ m * 2 ^ e`, for a positive `m`, found from below. -/
def decimalExponent (m : Nat) (e : Int) : Int :=
  let atMost (k : Int) : Bool :=
    let (num, den) := match e with
      | .ofNat j => (m * Nat.pow 2 j, 1)
      | .negSucc j => (m, Nat.pow 2 (j + 1))
    match k with
    | .ofNat j => Nat.pow 10 j * den ≤ num
    | .negSucc j => den ≤ num * Nat.pow 10 (j + 1)
  let start : Int := (Int.ofNat m.log2 + e) * 30103 / 100000 - 1
  let rec climb : Nat → Int → Int
    | 0, k => k
    | n + 1, k => if atMost (k + 1) then climb n (k + 1) else k
  climb 4 start

/-- The two neighbours of `m * 2 ^ e` on the grid of multiples of `10 ^ power`, the nearer one first. -/
def neighbours (m : Nat) (e power : Int) : Nat × Nat :=
  let (num, den) := match e with
    | .ofNat j => (m * Nat.pow 2 j, 1)
    | .negSucc j => (m, Nat.pow 2 (j + 1))
  let (num, den) := match power with
    | .ofNat j => (num, den * Nat.pow 10 j)
    | .negSucc j => (num * Nat.pow 10 (j + 1), den)
  let near := roundDiv num den
  (near, if near = num / den then near + 1 else near - 1)

/-- The shortest digits that read back as `m * 2 ^ e`, with the power of ten of the last one. `n` more
digits may be tried after `used` of them. -/
def shortestFrom (m : Nat) (e lead : Int) (used : Nat) : Nat → Nat × Int
  | 0 => ((neighbours m e (lead - 16)).1, lead - 16)
  | n + 1 =>
    let power := lead - Int.ofNat used
    let (near, far) := neighbours m e power
    if readsBack m e near power then (near, power)
    else if readsBack m e far power then (far, power)
    else shortestFrom m e lead (used + 1) n

/-- The shortest decimal of a positive finite number: its digits and the power of ten of the last. -/
def shortest (m : Nat) (e : Int) : Nat × Int :=
  shortestFrom m e (decimalExponent m e) 0 17

/-- Removes zeros at the end of a decimal's digits. -/
def stripZeros (digits : Nat) (power : Int) : Nat → Nat × Int
  | 0 => (digits, power)
  | n + 1 => if digits % 10 = 0 then stripZeros (digits / 10) (power + 1) n else (digits, power)

/-- A positive decimal with a point or an exponent: positional from 0.0001 up to but not including
10 ^ 16, else with an exponent of at least two digits. -/
def showDecimal (digits : Nat) (power : Int) : List Char :=
  let (digits, power) := stripZeros digits power 20
  let ds := Nat.toDigits 10 digits
  let point := Int.ofNat ds.length + power
  if -4 < point ∧ point ≤ 16 then
    if point ≤ 0 then '0' :: '.' :: (List.replicate point.natAbs '0' ++ ds)
    else
      let k := point.toNat
      let whole := ds.take k ++ List.replicate (k - ds.length) '0'
      let fraction := ds.drop k
      whole ++ '.' :: (if fraction.isEmpty then ['0'] else fraction)
  else
    let exponent := point - 1
    let size := Nat.toDigits 10 exponent.natAbs
    let head := match ds with
      | [] => []
      | [d] => [d]
      | d :: more => d :: '.' :: more
    head ++ 'e' :: (if exponent < 0 then '-' else '+') ::
      (List.replicate (2 - size.length) '0' ++ size)

/-- The written form of a number. -/
def render : Binary64 → Text
  | .nan => text "nan"
  | .infinite negative => text (if negative then "-inf" else "inf")
  | .finite negative m e =>
    let body :=
      if m = 0 then ['0', '.', '0']
      else
        let (digits, power) := shortest m e
        showDecimal digits power
    Text.ofChars (if negative then '-' :: body else body)

end Binary64

end Playground
