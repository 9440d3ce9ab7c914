import Playground.Text.DecimalDigit
/-!
# Arguments of a command line

The arguments are read from left to right. Options have names with one dash or
two; a name with two may be shortened as long as it fits one option only, and
its value may follow an equals sign. Options of one letter that take no value
may be joined. The argument `--` makes plain words of all that come after it,
and so is a negative number a plain word, and what has a blank in it.

A parser takes a fixed number of plain words, none or one here. What is left
over makes the whole command line be refused, but only after everything else
was taken, because asking for help comes first.
-/

namespace Playground.CommandLine

/-- An option that can be given. -/
structure Switch where
  /-- What stands for it among the results. -/
  key : String
  names : List String
  /-- Whether a value is to follow. -/
  takesValue : Bool := false
  /-- The values that are accepted, if not all are. -/
  choices : Option (List Text) := none

/-- The option that asks for help. -/
def Switch.help : Switch := { key := "help", names := ["-h", "--help"] }

/-- Why the arguments are not taken. -/
inductive Stop where
  /-- Help is asked for. -/
  | help
  /-- The arguments are refused. -/
  | refused
deriving DecidableEq, Repr

/-- What an argument is by itself. -/
inductive Word where
  | plain (t : Text)
  /-- The argument `--`. -/
  | separator
  /-- An option under the name by which it is called, with the value in the same argument. -/
  | switch (s : Switch) (name : Text) (value : Option Text)
  /-- An option that does not exist. -/
  | unknown

/-- The sign that options begin with. -/
def dash : CodePoint := CodePoint.ofChar '-'

/-- The sign between an option and its value. -/
def equals : CodePoint := CodePoint.ofChar '='

/-- Whether a text is a negative number. -/
def isNegativeNumber : Text → Bool
  | [] => false
  | c :: rest =>
    let isDigit (c : CodePoint) : Bool := c.digit?.isSome
    let fraction := (rest.dropWhile isDigit).drop 1
    c = dash &&
      ((!rest.isEmpty && rest.all isDigit) ||
        ((rest.dropWhile isDigit).head? = some (CodePoint.ofChar '.') && !fraction.isEmpty &&
          fraction.all isDigit))

/-- The option with this very name. -/
def exactly? (switches : List Switch) (name : Text) : Option Switch :=
  switches.find? fun s => s.names.any fun n => text n = name

/-- A text up to the first equals sign, and what follows it. -/
def splitValue (t : Text) : Text × Option Text :=
  match t.dropWhile (· ≠ equals) with
  | [] => (t, none)
  | _ :: value => (t.takeWhile (· ≠ equals), some value)

/-- The options that an argument may mean, if it is the name of none. With two dashes these are the
options whose name begins like it; with one dash also the option of its first letter, which the
other letters are joined to. -/
def candidates (switches : List Switch) (t : Text) : List Word :=
  let each (f : Switch → Text → Option Word) : List Word :=
    switches.flatMap fun s => s.names.filterMap fun n => f s (text n)
  if t.startsWith (text "--") then
    let (name, value) := splitValue t
    each fun s n => if n.startsWith name then some (.switch s n value) else none
  else
    each fun s n =>
      if n = t.take 2 then some (.switch s n (some (t.drop 2)))
      else if n.startsWith t then some (.switch s n none)
      else none

/-- What an argument is in front of the argument `--`. An argument that may mean several options is
refused. -/
def Word.ofText (switches : List Switch) (t : Text) : Except Stop Word :=
  match t with
  | [] => .ok (.plain t)
  | c :: rest =>
    if c ≠ dash then .ok (.plain t)
    else
      match exactly? switches t with
      | some s => .ok (.switch s t none)
      | none =>
        if rest.isEmpty then .ok (.plain t)
        else
          match splitValue t, exactly? switches (splitValue t).1 with
          | (name, some value), some s => .ok (.switch s name (some value))
          | _, _ =>
            match candidates switches t with
            | [word] => .ok word
            | _ :: _ :: _ => .error .refused
            | [] =>
              if isNegativeNumber t || t.contains [CodePoint.ofChar ' '] then .ok (.plain t)
              else .ok .unknown

/-- What the arguments are. -/
def words (switches : List Switch) : List Text → Except Stop (List Word)
  | [] => .ok []
  | t :: rest =>
    if t = text "--" then .ok (.separator :: rest.map .plain)
    else do
      let word ← Word.ofText switches t
      return word :: (← words switches rest)

/-- What was found among the arguments. -/
structure Found where
  /-- The options that were given, the latest first, each with its value if it takes one. -/
  given : List (String × Text) := []
  /-- The plain word that was taken. -/
  operand : Option Text := none
  /-- Whether something is left over. -/
  leftOver : Bool := false

namespace Found

/-- Whether an option was given. -/
def has (f : Found) (key : String) : Bool :=
  (f.given.lookup key).isSome

/-- The value of an option. -/
def value? (f : Found) (key : String) : Option Text :=
  f.given.lookup key

/-- Takes an option with its value, or an empty one. -/
def give (f : Found) (s : Switch) (value : Text) : Except Stop Found :=
  if s.key = Switch.help.key then .error .help
  else if (s.choices.map fun all => all.contains value).getD true then
    .ok { f with given := (s.key, value) :: f.given }
  else .error .refused

end Found

/-- The options that letters stand for that are joined to each other. -/
def joined (switches : List Switch) : Text → Except Stop (List Switch)
  | [] => .ok []
  | c :: rest =>
    match exactly? switches [dash, c] with
    | some s => do return s :: (← joined switches rest)
    | none => .error .refused

/-- Takes an option together with a value in the same argument. -/
def takeJoined (switches : List Switch) (f : Found) (s : Switch) (name value : Text) :
    Except Stop Found :=
  if s.takesValue then f.give s value
  else if name.startsWith (text "--") || value.isEmpty then .error .refused
  else do
    let more ← joined switches value
    (s :: more).foldlM (fun f s => f.give s []) f

/-- Takes a plain word, unless there is one already. -/
def Found.take (f : Found) (t : Text) : Found :=
  match f.operand with
  | none => { f with operand := some t }
  | some _ => { f with leftOver := true }

/-- Takes the arguments of a parser for one plain word. The argument `--` may stand on either side of
that word. -/
def takeOne (switches : List Switch) (f : Found) : List Word → Except Stop Found
  | [] => .ok f
  | .unknown :: rest => takeOne switches { f with leftOver := true } rest
  | .switch s name (some value) :: rest => do
    takeOne switches (← takeJoined switches f s name value) rest
  | .switch s _ none :: rest =>
    if s.takesValue then
      match rest with
      | .plain value :: more => do takeOne switches (← f.give s value) more
      | _ => .error .refused
    else do takeOne switches (← f.give s []) rest
  | .separator :: .plain t :: rest => takeOne switches (f.take t) rest
  | .separator :: rest => takeOne switches { f with leftOver := true } rest
  | .plain t :: .separator :: rest => takeOne switches (f.take t) rest
  | .plain t :: rest => takeOne switches (f.take t) rest

/-- Takes the arguments of a parser for one plain word, which must be there. -/
def parseOne (switches : List Switch) (arguments : List Text) : Except Stop Found := do
  let found ← takeOne switches {} (← words switches arguments)
  if found.operand.isNone then .error .refused else return found

/-- Takes the options in front of a plain word, and gives that word with the arguments after it. The
argument `--` does not begin one. -/
def takeLeading (switches : List Switch) (f : Found) :
    List (Text × Word) → Except Stop (Found × Text × List Text)
  | [] => .error .refused
  | (_, .unknown) :: rest => takeLeading switches { f with leftOver := true } rest
  | (_, .switch s name (some value)) :: rest => do
    takeLeading switches (← takeJoined switches f s name value) rest
  | (_, .switch s _ none) :: rest => do
    if s.takesValue then .error .refused
    else takeLeading switches (← f.give s []) rest
  | (t, .plain _) :: rest => .ok (f, t, rest.map Prod.fst)
  | (_, .separator) :: _ => .error .refused

/-- Takes the arguments of a parser for options and a word that tells what the others mean. -/
def parseLeading (switches : List Switch) (arguments : List Text) :
    Except Stop (Found × Text × List Text) := do
  takeLeading switches {} (arguments.zip (← words switches arguments))

end Playground.CommandLine
