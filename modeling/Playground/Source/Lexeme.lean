/-!
# Lexemes of module source

How long the lexeme at the front of some source is: blanks and comments, words,
numerals, string literals and regular expressions. Every function answers with
a number of characters, so that a caller can both slice the lexeme out and pass
over it. `none` or zero means that there is no such lexeme.
-/

namespace Playground.Source

/-! ## Blanks and comments -/

/-- The blanks between lexemes. -/
def isBlank (c : Char) : Bool :=
  let n := c.toNat
  (9 ≤ n && n ≤ 13) || n == 0x20 || n == 0xA0 || n == 0x1680 || (0x2000 ≤ n && n ≤ 0x200B) ||
    n == 0x2028 || n == 0x2029 || n == 0x202F || n == 0x205F || n == 0x2060 || n == 0x3000 ||
    n == 0xFEFF

/-- The characters that end a line. -/
def isLineEnd (c : Char) : Bool :=
  c == '\n' || c == '\r' || c == '\u2028' || c == '\u2029'

/-- The length of a block comment after its opening, `n` characters of it being passed already. -/
def blockCommentFrom (n : Nat) : List Char → Option Nat
  | [] => none
  | '*' :: '/' :: _ => some (n + 2)
  | _ :: rest => blockCommentFrom (n + 1) rest

/-- The length of a comment. A block comment that is not closed is none. -/
def comment? : List Char → Option Nat
  | '/' :: '/' :: rest => some (2 + (rest.takeWhile fun c => !isLineEnd c).length)
  | '/' :: '*' :: rest => blockCommentFrom 2 rest
  | _ => none

/-- The length of a comment in the manner of markup, which runs to the end of its line. -/
def markupComment? (source : List Char) : Option Nat :=
  let body (rest : List Char) : Nat :=
    (rest.takeWhile fun c => !(c == '\n' || c == '\u2028' || c == '\u2029')).length
  match source with
  | '<' :: '!' :: '-' :: '-' :: rest => some (4 + body rest)
  | '-' :: '-' :: '>' :: rest => some (3 + body rest)
  | _ => none

/-! ## Words -/

/-- Whether a character belongs to a word, anywhere but at its beginning. -/
def isWordPart (c : Char) : Bool :=
  let n := c.toNat
  !(n ≤ 0x1F || isBlank c || n == 0x21 || n == 0x22 || n == 0x23 || (0x25 ≤ n && n ≤ 0x2F) ||
    (0x3A ≤ n && n ≤ 0x40) || (0x5B ≤ n && n ≤ 0x5E) || n == 0x60 || (0x7B ≤ n && n ≤ 0x7E))

/-- Whether a character is a decimal digit. -/
def isDigit (c : Char) : Bool :=
  '0' ≤ c && c ≤ '9'

/-- Whether a character is a hexadecimal digit. -/
def isHexDigit (c : Char) : Bool :=
  isDigit c || ('a' ≤ c && c ≤ 'f') || ('A' ≤ c && c ≤ 'F')

/-- Whether a character is an octal digit. -/
def isOctalDigit (c : Char) : Bool :=
  '0' ≤ c && c ≤ '7'

/-- The length of an escape by number, from its `u` on. -/
def unicodeEscape? : List Char → Option Nat
  | 'u' :: '{' :: rest =>
    let digits := (rest.takeWhile isHexDigit).length
    if digits ≠ 0 ∧ (rest.drop digits).head? = some '}' then some (digits + 3) else none
  | 'u' :: a :: b :: c :: d :: _ =>
    if isHexDigit a && isHexDigit b && isHexDigit c && isHexDigit d then some 5 else none
  | _ => none

/-- The length of a word from some place in it on. `skip` characters of an escape are still to be
passed over. -/
def wordFrom (skip : Nat) (atStart : Bool) : List Char → Nat
  | [] => 0
  | c :: rest =>
    match skip with
    | k + 1 => 1 + wordFrom k false rest
    | 0 =>
      if c == '\\' then
        match unicodeEscape? rest with
        | some k => 1 + wordFrom k false rest
        | none => 0
      else if isWordPart c && !(atStart && isDigit c) then 1 + wordFrom 0 false rest
      else 0

/-- The length of a word. -/
def wordLength (source : List Char) : Nat :=
  wordFrom 0 true source

/-! ## Numerals -/

/-- The length of a run of digits with single underscores between them. -/
def digitsLength (digit : Char → Bool) : List Char → Nat
  | [] => 0
  | c :: rest =>
    if digit c then 1 + digitsLength digit rest
    else if c == '_' then
      match rest with
      | d :: more => if digit d then 2 + digitsLength digit more else 0
      | [] => 0
    else 0

/-- The length of a run of digits that begins with a digit. -/
def digitRun (digit : Char → Bool) (source : List Char) : Nat :=
  match source with
  | c :: _ => if digit c then digitsLength digit source else 0
  | [] => 0

/-- The length of an exponent. -/
def exponentLength : List Char → Nat
  | c :: rest =>
    if c == 'e' || c == 'E' then
      let (sign, digits) := match rest with
        | s :: more => if s == '+' || s == '-' then (1, more) else (0, rest)
        | [] => (0, rest)
      let n := digitRun isDigit digits
      if n = 0 then 0 else 1 + sign + n
    else 0
  | [] => 0

/-- The length of a numeral. -/
def number? (source : List Char) : Option Nat :=
  let suffixed (n : Nat) : Nat := if (source.drop n).head? = some 'n' then n + 1 else n
  let radix (digit : Char → Bool) (rest : List Char) : Option Nat :=
    let n := digitRun digit rest
    if n = 0 then some 1 else some (suffixed (n + 2))
  match source with
  | '0' :: 'x' :: rest | '0' :: 'X' :: rest => radix isHexDigit rest
  | '0' :: 'b' :: rest | '0' :: 'B' :: rest => radix (fun c => c == '0' || c == '1') rest
  | '0' :: 'o' :: rest | '0' :: 'O' :: rest => radix isOctalDigit rest
  | '.' :: rest =>
    let n := digitRun isDigit rest
    if n = 0 then none else some (1 + n + exponentLength (rest.drop n))
  | _ =>
    let n := digitRun isDigit source
    if n = 0 then none
    else
      match source.drop n with
      | '.' :: rest =>
        let m := digitRun isDigit rest
        some (n + 1 + m + exponentLength (rest.drop m))
      | rest =>
        let m := exponentLength rest
        if m = 0 then some (suffixed n) else some (n + m)

/-! ## Strings and regular expressions -/

/-- The length of an escape in a literal, after its backslash. -/
def escape? : List Char → Option Nat
  | [] => none
  | 'x' :: a :: b :: _ => if isHexDigit a && isHexDigit b then some 3 else none
  | 'x' :: _ => none
  | 'u' :: rest => unicodeEscape? ('u' :: rest)
  | '\r' :: '\n' :: _ => some 2
  | c :: rest =>
    if isOctalDigit c then some (1 + ((rest.take 2).takeWhile isOctalDigit).length) else some 1

/-- The length of blanks and comments. -/
def triviaFrom : Nat → Nat → List Char → Nat
  | 0, n, _ => n
  | fuel + 1, n, source =>
    match source with
    | [] => n
    | c :: rest =>
      if isBlank c then triviaFrom fuel (n + 1) rest
      else
        match comment? source with
        | some k => triviaFrom fuel (n + k) (source.drop k)
        | none => n

/-- The length of the blanks and comments in front of a lexeme. -/
def triviaLength (source : List Char) : Nat :=
  triviaFrom (source.length + 1) 0 source

/-- The length of a string literal after its opening quote, `n` characters of it being passed already.
Only blanks and comments may stand between the end of a line and the closing quote. -/
def stringFrom (quote : Char) : Nat → Nat → List Char → Option Nat
  | 0, _, _ => none
  | fuel + 1, n, source =>
    match source with
    | [] => none
    | c :: rest =>
      if c == quote then some (n + 1)
      else if c == '\\' then
        match escape? rest with
        | some k => stringFrom quote fuel (n + 1 + k) (rest.drop k)
        | none => none
      else if c == '\n' || c == '\r' then
        let k := triviaLength source
        if (source.drop k).head? = some quote then some (n + k + 1) else none
      else stringFrom quote fuel (n + 1) rest

/-- The length of a string literal. -/
def string? : List Char → Option Nat
  | '"' :: rest => stringFrom '"' (rest.length + 1) 1 rest
  | '\'' :: rest => stringFrom '\'' (rest.length + 1) 1 rest
  | _ => none

/-- The length of a stretch of a template up to what ends it: a backtick, a backslash or the beginning
of a substitution. -/
def templateRun (n : Nat) : List Char → Nat
  | [] => n
  | '$' :: '{' :: _ => n
  | c :: rest => if c == '\u0060' || c == '\\' then n else templateRun (n + 1) rest

/-- The length of a regular expression after its opening slash, `n` characters of it being passed
already. In a class a slash is an ordinary character. -/
def regexFrom (inClass escaped : Bool) (n : Nat) : List Char → Option Nat
  | [] => none
  | c :: rest =>
    if c == '\n' then none
    else if escaped then regexFrom inClass false (n + 1) rest
    else if c == '\\' then regexFrom inClass true (n + 1) rest
    else if inClass then regexFrom (c != ']') false (n + 1) rest
    else if c == '/' then
      if n ≤ 1 then none
      else some (n + 1 + (rest.takeWhile fun d => 'a' ≤ d && d ≤ 'z').length)
    else regexFrom (c == '[') false (n + 1) rest

/-- The length of a regular expression with its flags. -/
def regex? : List Char → Option Nat
  | '/' :: rest => regexFrom false false 1 rest
  | _ => none

end Playground.Source
