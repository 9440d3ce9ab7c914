import Playground.Source.Lexeme
/-!
# Semicolons that are not written

A statement or a member of a type may end without a semicolon, at the end of
the source, in front of a closing brace, or at the end of a line. At the end of
a line it depends on what comes next: characters that would go on with what
stands before the break prevent the end. Two facts about the place matter: an
opening bracket on the next line goes on with a value, though not with a type;
and an opening brace on the next line goes on with the head of a function.
-/

namespace Playground.Source

/-- What stands in front of the place where a semicolon may be missing. -/
inductive Ending where
  /-- A place where nothing can end. -/
  | never
  /-- A value, which an operator could follow. -/
  | value
  /-- A type or a name, which no operator could follow. -/
  | plain
  /-- The head of a function, which a body could follow. -/
  | head
deriving DecidableEq, Repr

/-- The blanks that are passed over in search of a missing semicolon. -/
def isLineBlank (c : Char) : Bool :=
  let n := c.toNat
  (9 ≤ n && n ≤ 13) || n == 0x20 || n == 0x1680 || (0x2000 ≤ n && n ≤ 0x2006) ||
    (0x2008 ≤ n && n ≤ 0x200A) || n == 0x2028 || n == 0x2029 || n == 0x205F || n == 0x3000

/-- Whether a character is a letter, as far as a word operator must not be followed by one. -/
def isLetter (c : Char) : Bool :=
  ('a' ≤ c && c ≤ 'z') || ('A' ≤ c && c ≤ 'Z') || 0xAA ≤ c.toNat

/-- Passes over blanks and comments after a line break; `none` at a slash that begins no comment. A
comment that is not closed runs to the end of the source. -/
def afterBlanks : Nat → List Char → Option (List Char)
  | 0, source => some source
  | fuel + 1, source =>
    match source with
    | '/' :: '/' :: rest => afterBlanks fuel (rest.dropWhile (· != '\n'))
    | '/' :: '*' :: rest =>
      match blockCommentFrom 0 rest with
      | some n => afterBlanks fuel (rest.drop n)
      | none => some []
    | '/' :: _ => none
    | c :: rest => if isLineBlank c then afterBlanks fuel rest else some source
    | [] => some []

/-- Whether a line that begins with the letter `i` begins with one of the operators `in` and
`instanceof`. -/
def beginsWithOperator : List Char → Bool
  | 'i' :: 'n' :: rest =>
    let goesOn (rest : List Char) : Bool := (rest.head?.map isLetter).getD false
    if goesOn rest then
      match rest with
      | 's' :: 't' :: 'a' :: 'n' :: 'c' :: 'e' :: 'o' :: 'f' :: more => !goesOn more
      | _ => false
    else true
  | _ => false

/-- Whether what comes after a line break leaves the line before it finished. -/
def finishesLine (ending : Ending) : List Char → Bool
  | [] => true
  | c :: rest =>
    if c ∈ ['\u0060', ',', '.', ';', '*', '%', '>', '<', '=', '?', '^', '|', '&', '/', ':'] then false
    else if c == '{' then ending != .head
    else if c == '(' || c == '[' then ending != .value
    else if c == '+' then rest.head? = some '+'
    else if c == '-' then rest.head? = some '-'
    else if c == '!' then rest.head? ≠ some '='
    else if c == 'i' then !beginsWithOperator (c :: rest)
    else true

/-- Whether a missing semicolon is supplied right here. Only blanks are looked past before a line
break; a comment in front of the break is not. -/
def endsHere (ending : Ending) : List Char → Bool
  | [] => true
  | c :: rest =>
    if c == '}' then
      if (rest.dropWhile isLineBlank).head? = some ':' then ending == .value else true
    else if c == '\n' then
      match afterBlanks (rest.length + 1) rest with
      | some next => finishesLine ending next
      | none => false
    else if isLineBlank c then endsHere ending rest
    else false

/-- How far on a missing semicolon is supplied: right here, or after comments on this line. -/
def missingSemicolon? (ending : Ending) : Nat → Nat → List Char → Option Nat
  | 0, _, _ => none
  | fuel + 1, n, source =>
    if ending == .never then none
    else if endsHere ending source then some n
    else
      let blanks := (source.takeWhile isBlank).length
      match comment? (source.drop blanks) with
      | some k =>
        missingSemicolon? ending fuel (n + blanks + k) (source.drop (blanks + k))
      | none => none

end Playground.Source
