import Playground.Text
/-!
# Splitting a command into words

A command is configured as one line and split the way a POSIX shell would, with
quotes and backslashes and without any expansion. Single quotes keep everything
literally; in double quotes a backslash escapes only a double quote or another
backslash.
-/

namespace Playground.ShellWords

/-- Why a line cannot be split. -/
inductive Fault where
  | noClosingQuote
  | noEscapedCharacter
deriving DecidableEq, Repr

/-- What a fault reads like. -/
def Fault.message : Fault → Text
  | .noClosingQuote => text "No closing quotation"
  | .noEscapedCharacter => text "No escaped character"

/-- Where the splitter stands. -/
inductive Mode where
  /-- Between words or within a word, outside quotes. -/
  | plain
  /-- After a backslash outside quotes. -/
  | escaped
  /-- Within single quotes. -/
  | single
  /-- Within double quotes. -/
  | double
  /-- After a backslash within double quotes. -/
  | doubleEscaped
deriving DecidableEq, Repr

/-- The blanks between words. -/
def isSeparator (c : CodePoint) : Bool :=
  c.val == 32 || c.val == 9 || c.val == 13 || c.val == 10

/-- Splits the rest of a line. `word` is the word in progress, latest code point first; it is `none`
between words, so that a quoted empty word is told apart from no word. -/
def splitFrom (mode : Mode) (word : Option Text) : Text → Except Fault (List Text)
  | [] =>
    match mode with
    | .plain => .ok (word.toList.map List.reverse)
    | .escaped | .doubleEscaped => .error .noEscapedCharacter
    | .single | .double => .error .noClosingQuote
  | c :: rest =>
    let grown := some (c :: word.getD [])
    match mode with
    | .plain =>
      if isSeparator c then
        match splitFrom .plain none rest with
        | .ok words => .ok (word.toList.map List.reverse ++ words)
        | .error e => .error e
      else if c = CodePoint.ofChar '\'' then splitFrom .single (some (word.getD [])) rest
      else if c = CodePoint.ofChar '"' then splitFrom .double (some (word.getD [])) rest
      else if c = CodePoint.ofChar '\\' then splitFrom .escaped word rest
      else splitFrom .plain grown rest
    | .escaped => splitFrom .plain grown rest
    | .single =>
      if c = CodePoint.ofChar '\'' then splitFrom .plain word rest
      else splitFrom .single grown rest
    | .double =>
      if c = CodePoint.ofChar '"' then splitFrom .plain word rest
      else if c = CodePoint.ofChar '\\' then splitFrom .doubleEscaped word rest
      else splitFrom .double grown rest
    | .doubleEscaped =>
      if c = CodePoint.ofChar '"' ∨ c = CodePoint.ofChar '\\' then splitFrom .double grown rest
      else splitFrom .double (some (c :: CodePoint.ofChar '\\' :: word.getD [])) rest

/-- The words of a line. -/
def split (line : Text) : Except Fault (List Text) :=
  splitFrom .plain none line

end Playground.ShellWords
