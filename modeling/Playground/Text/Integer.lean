import Playground.Text.Blank
import Playground.Text.DecimalDigit
/-!
# Integers written by people

A setting may hold an integer as a person writes one: blanks around it, a sign,
digits of any script, and single underscores between digits. A run of more than
`maxDigits` digits is refused for its length, whatever comes after it.
-/

namespace Playground.Integer

/-- How many digits an integer may have. -/
def maxDigits : Nat := 4300

/-- Why a text is not read as an integer. -/
inductive Fault where
  | malformed
  /-- The integer has this many digits, which is more than `maxDigits`. -/
  | tooLong (digits : Nat)
deriving DecidableEq, Repr

/-- The blanks that may stand around an integer: all but the separators of records and fields. -/
def isPadding (c : CodePoint) : Bool :=
  c.isBlank && !(28 ≤ c.val && c.val ≤ 31)

/-- A run of digits with single underscores between them. -/
structure Run where
  digits : Nat
  value : Nat
  rest : Text

/-- Reads on in a run that has `digits` digits so far, of value `value`. The run is malformed when an
underscore in it is not followed by a digit. -/
def runFrom (digits value : Nat) (afterUnderscore : Bool) : Text → Option Run
  | [] => if afterUnderscore then none else some ⟨digits, value, []⟩
  | c :: rest =>
    match c.digit? with
    | some d => runFrom (digits + 1) (value * 10 + d) false rest
    | none =>
      if afterUnderscore then none
      else if c = CodePoint.ofChar '_' then runFrom digits value true rest
      else some ⟨digits, value, c :: rest⟩

/-- A natural number: a digit, then digits with single underscores between them, and nothing more. -/
def natural : Text → Except Fault Nat
  | [] => .error .malformed
  | c :: rest =>
    match c.digit?.bind fun d => runFrom 1 d false rest with
    | none => .error .malformed
    | some run =>
      if maxDigits < run.digits then .error (.tooLong run.digits)
      else if run.rest.isEmpty then .ok run.value
      else .error .malformed

/-- The integer that a text shows. -/
def read (t : Text) : Except Fault Int :=
  match ((t.dropWhile isPadding).reverse.dropWhile isPadding).reverse with
  | [] => .error .malformed
  | c :: rest =>
    if c = CodePoint.ofChar '+' then (natural rest).map Int.ofNat
    else if c = CodePoint.ofChar '-' then (natural rest).map fun n => -Int.ofNat n
    else (natural (c :: rest)).map Int.ofNat

end Playground.Integer
