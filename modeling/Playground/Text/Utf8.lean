import Playground.Text
/-!
# UTF-8, with and without surrogates

`encode` writes well-formed UTF-8 and refuses a text with a surrogate;
`encodeLoose` gives every code point, surrogates too, the three- or four-octet
form that its number calls for, so that nothing is lost. Decoding is one
machine over the octets. It cuts the input into code points and maximal
malformed stretches (`pieces`), and the three decoders differ only in what they
do with a malformed stretch and in whether surrogates are let through.
-/

namespace Playground

/-- A sequence of octets. -/
abbrev Bytes := List UInt8

namespace Utf8

/-! ## Encoding -/

/-- The octets of one code point, by the length that its number calls for. -/
def encodeOne (c : CodePoint) : Bytes :=
  let n := c.val
  if n < 0x80 then [.ofNat n]
  else if n < 0x800 then [.ofNat (0xC0 + n / 64), .ofNat (0x80 + n % 64)]
  else if n < 0x10000 then
    [.ofNat (0xE0 + n / 4096), .ofNat (0x80 + n / 64 % 64), .ofNat (0x80 + n % 64)]
  else
    [.ofNat (0xF0 + n / 262144), .ofNat (0x80 + n / 4096 % 64), .ofNat (0x80 + n / 64 % 64),
      .ofNat (0x80 + n % 64)]

/-- The octets of a text, surrogates written like any other code point. -/
def encodeLoose (t : Text) : Bytes :=
  t.flatMap encodeOne

/-- The first stretch of surrogates in a text: where it begins, its first member and its length. -/
structure Unencodable where
  start : Nat
  first : CodePoint
  count : Nat
deriving DecidableEq, Repr

/-- Finds the first stretch of surrogates, counting positions from `start`. -/
def firstSurrogates (start : Nat) : Text → Option Unencodable
  | [] => none
  | c :: rest =>
    if c.isSurrogate then
      some ⟨start, c, 1 + (rest.takeWhile CodePoint.isSurrogate).length⟩
    else firstSurrogates (start + 1) rest

/-- Well-formed UTF-8, or the stretch of surrogates that stands in its way. -/
def encode (t : Text) : Except Unencodable Bytes :=
  match firstSurrogates 0 t with
  | some bad => .error bad
  | none => .ok (encodeLoose t)

/-! ## Decoding -/

/-- Why a stretch of octets is no code point. -/
inductive Fault where
  /-- An octet that begins no sequence. -/
  | badStart
  /-- A sequence is followed by an octet that cannot continue it. -/
  | badContinuation
  /-- The input ends within a sequence. -/
  | truncated
deriving DecidableEq, Repr

/-- A maximal malformed stretch. -/
structure Malformed where
  start : Nat
  first : UInt8
  count : Nat
  fault : Fault
deriving DecidableEq, Repr

/-- A sequence that has begun: its first octet, how many octets it has, how many more it needs, the
number built up so far and the bounds on the next octet. -/
structure Partial where
  start : Nat
  first : UInt8
  count : Nat
  missing : Nat
  acc : Nat
  low : Nat
  high : Nat
deriving DecidableEq, Repr

/-- One step's worth of decoded input. -/
inductive Piece where
  | point (c : CodePoint)
  | bad (m : Malformed)
deriving DecidableEq, Repr

/-- What an octet at position `pos` does between sequences. -/
inductive Opening where
  | whole (c : CodePoint)
  | begun (p : Partial)
  | refused

/-- Reads the first octet of a sequence. With `loose` the second octet after 0xED is not bounded
above, which lets the surrogates in. -/
def opening (loose : Bool) (pos : Nat) (b : UInt8) : Opening :=
  let n := b.toNat
  if h : n < 0x80 then .whole ⟨n, by omega⟩
  else if 0xC2 ≤ n ∧ n ≤ 0xDF then .begun ⟨pos, b, 1, 1, n - 0xC0, 0x80, 0xBF⟩
  else if n = 0xE0 then .begun ⟨pos, b, 1, 2, 0, 0xA0, 0xBF⟩
  else if n = 0xED then .begun ⟨pos, b, 1, 2, 0xD, 0x80, if loose then 0xBF else 0x9F⟩
  else if 0xE1 ≤ n ∧ n ≤ 0xEF then .begun ⟨pos, b, 1, 2, n - 0xE0, 0x80, 0xBF⟩
  else if n = 0xF0 then .begun ⟨pos, b, 1, 3, 0, 0x90, 0xBF⟩
  else if 0xF1 ≤ n ∧ n ≤ 0xF3 then .begun ⟨pos, b, 1, 3, n - 0xF0, 0x80, 0xBF⟩
  else if n = 0xF4 then .begun ⟨pos, b, 1, 3, 4, 0x80, 0x8F⟩
  else .refused

/-- What the octet at `pos` does between sequences: the piece that it completes or is, and the sequence
that it begins. -/
def openAt (loose : Bool) (pos : Nat) (b : UInt8) : List Piece × Option Partial :=
  match opening loose pos b with
  | .whole c => ([.point c], none)
  | .begun p => ([], some p)
  | .refused => ([.bad ⟨pos, b, 1, .badStart⟩], none)

/-- What the octet at `pos` does after `pending`. An octet that cannot continue the sequence before it
is read again as the beginning of the next one. -/
def step (loose : Bool) (pos : Nat) (pending : Option Partial) (b : UInt8) :
    List Piece × Option Partial :=
  match pending with
  | none => openAt loose pos b
  | some p =>
    let n := b.toNat
    if p.low ≤ n ∧ n ≤ p.high then
      let acc := p.acc * 64 + n % 64
      if p.missing ≤ 1 then
        ([.point (if h : acc < 0x110000 then ⟨acc, h⟩ else .replacement)], none)
      else
        ([], some { p with
          count := p.count + 1, missing := p.missing - 1, acc, low := 0x80, high := 0xBF })
    else
      let (found, next) := openAt loose pos b
      (.bad ⟨p.start, p.first, p.count, .badContinuation⟩ :: found, next)

/-- Cuts the input into code points and malformed stretches. -/
def pieces (loose : Bool) (pos : Nat) (pending : Option Partial) : Bytes → List Piece
  | [] =>
    match pending with
    | none => []
    | some p => [.bad ⟨p.start, p.first, p.count, .truncated⟩]
  | b :: rest =>
    let (found, next) := step loose pos pending b
    found ++ pieces loose (pos + 1) next rest

/-- The code points, if no piece is malformed; else the first malformed stretch. -/
def collect : List Piece → Except Malformed Text
  | [] => .ok []
  | .point c :: rest =>
    match collect rest with
    | .ok t => .ok (c :: t)
    | .error m => .error m
  | .bad m :: _ => .error m

/-- Reads well-formed UTF-8. -/
def decode (bytes : Bytes) : Except Malformed Text :=
  collect (pieces false 0 none bytes)

/-- Reads UTF-8 in which surrogates may be encoded one by one. A pair of encoded surrogates stays
two code points. -/
def decodeLoose (bytes : Bytes) : Except Malformed Text :=
  collect (pieces true 0 none bytes)

/-- Reads anything, putting the replacement character for each malformed stretch. -/
def decodeLossy (bytes : Bytes) : Text :=
  (pieces false 0 none bytes).map fun
    | .point c => c
    | .bad _ => .replacement

end Utf8

end Playground
