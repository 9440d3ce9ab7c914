/-!
# Text as a sequence of code points

A session's document is whatever an editor holds, and an editor may hold half
of a surrogate pair. `Char` excludes the surrogates, so text here is a list of
code points from 0 to 0x10FFFF with no further condition. Everything that is
read or written as text goes through this type; only the code that insists on
well-formed characters converts to `Char`, and it says so.
-/

namespace Playground

/-- A Unicode code point. Surrogates are included. -/
structure CodePoint where
  val : Nat
  isLt : val < 0x110000
deriving DecidableEq, Repr

namespace CodePoint

/-- A character seen as a code point. -/
def ofChar (c : Char) : CodePoint :=
  ⟨c.toNat, by
    have h := c.valid
    simp only [UInt32.isValidChar, Nat.isValidChar] at h
    simp only [Char.toNat]
    omega⟩

instance : Coe Char CodePoint := ⟨ofChar⟩

/-- The code points that are reserved for the halves of surrogate pairs. -/
def isSurrogate (c : CodePoint) : Bool :=
  0xD800 ≤ c.val && c.val ≤ 0xDFFF

/-- The code point with this number, when there is one. -/
def ofNat? (n : Nat) : Option CodePoint :=
  if h : n < 0x110000 then some ⟨n, h⟩ else none

/-- The replacement character, shown in place of what cannot be decoded. -/
def replacement : CodePoint := ⟨0xFFFD, by decide⟩

/-- The character with this code point; surrogates have none. -/
def toChar? (c : CodePoint) : Option Char :=
  if h : c.val.isValidChar then some (Char.ofNatAux c.val h) else none

/-- The character with this code point, or the replacement character. -/
def toCharD (c : CodePoint) : Char :=
  c.toChar?.getD '\uFFFD'

/-- The same letter in lower case, for the letters of ASCII only. -/
def lowerAscii (c : CodePoint) : CodePoint :=
  if h : 65 ≤ c.val ∧ c.val ≤ 90 then ⟨c.val + 32, by omega⟩ else c

end CodePoint

/-- A text: any sequence of code points. -/
abbrev Text := List CodePoint

/-- The text with the characters of a string. -/
def text (s : String) : Text :=
  s.toList.map CodePoint.ofChar

/-- The text with these characters. -/
def Text.ofChars (cs : List Char) : Text :=
  cs.map CodePoint.ofChar

namespace Text

/-- The characters of a text that has no surrogate. -/
def toChars? (t : Text) : Option (List Char) :=
  t.mapM CodePoint.toChar?

/-- The characters of a text, each surrogate replaced. -/
def toCharsD (t : Text) : List Char :=
  t.map CodePoint.toCharD

/-- A natural number in decimal. -/
def ofNat (n : Nat) : Text :=
  ofChars (Nat.toDigits 10 n)

/-- An integer in decimal, with a minus sign in front when it is negative. -/
def ofInt : Int → Text
  | .ofNat n => ofNat n
  | .negSucc n => CodePoint.ofChar '-' :: ofNat (n + 1)

/-- What follows `lead` in a text that begins with it. -/
def after? : (lead t : Text) → Option Text
  | [], t => some t
  | _ :: _, [] => none
  | a :: lead, b :: t => if a = b then after? lead t else none

theorem after?_append (lead t : Text) : after? lead (lead ++ t) = some t := by
  induction lead with
  | nil => rfl
  | cons c lead ih =>
      rw [List.cons_append, after?, if_pos rfl]
      exact ih

theorem after?_eq_some_iff {lead t rest : Text} : after? lead t = some rest ↔ t = lead ++ rest := by
  refine ⟨fun h => ?_, fun h => h ▸ after?_append lead rest⟩
  induction lead generalizing t with
  | nil => exact Option.some.inj h
  | cons c lead ih =>
      cases t with
      | nil => cases h
      | cons d t =>
          rw [after?] at h
          split at h
          · next same => rw [same, List.cons_append, ih h]
          · cases h

/-- Whether a text begins with `lead`. -/
def startsWith (t lead : Text) : Bool :=
  (after? lead t).isSome

/-- Whether a text ends with `tail`. -/
def endsWith (t tail : Text) : Bool :=
  startsWith t.reverse tail.reverse

/-- Whether `part` occurs somewhere in a text. -/
def contains (t part : Text) : Bool :=
  match t with
  | [] => part.isEmpty
  | _ :: rest => startsWith t part || contains rest part

/-- The pieces of a text between the occurrences of a separator. There is always one more piece
than there are separators. -/
def splitAt (sep : CodePoint) : Text → List Text
  | [] => [[]]
  | c :: rest =>
    if c = sep then [] :: splitAt sep rest
    else
      match splitAt sep rest with
      | [] => [[c]]
      | piece :: more => (c :: piece) :: more

/-- The pieces, with `sep` between neighbours. -/
def join (sep : Text) : List Text → Text
  | [] => []
  | [t] => t
  | t :: rest => t ++ sep ++ join sep rest

/-- The order of texts by code point, a proper beginning first. -/
def le : Text → Text → Bool
  | [], _ => true
  | _ :: _, [] => false
  | a :: s, b :: t => a.val < b.val || (a = b && le s t)

/-- The code points from `start` up to but not including `stop`. -/
def slice (t : Text) (start stop : Nat) : Text :=
  (t.drop start).take (stop - start)

/-- A text repeated. -/
def times (t : Text) : Nat → Text
  | 0 => []
  | n + 1 => t ++ times t n

end Text

end Playground
