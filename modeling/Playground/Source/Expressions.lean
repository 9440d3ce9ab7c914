import Playground.Source.Members
/-!
# Expressions

An operand, what is appended to it, and then at most one operator with the rest
of the expression behind it. Where the construct may end at a line break, the
break is tested in front of everything that could be appended.
-/

namespace Playground.Source

open Reader

/-! ## Functions -/

/-- The first words of the statements. -/
def statementWords : List String :=
  ["if", "for", "while", "do", "switch", "try", "with", "break", "continue", "debugger", "return",
    "throw", "var", "const", "class", "function", "import", "export", "enum", "interface"]

/-- Whether a brace may open an object where it could also open a block: the first thing in it must not
be the first word of a statement. -/
def objectAhead : Reader Bool := test do
  mark "\x7b"
  guard !((statementWords.map String.toList).contains (← lookWord))

/-- The body of an arrow function. -/
def arrowBody (g : Grammar) (place : Place) : Reader Unit := do
  if ← ahead "\x7b" then
    g.block <|> do
      guard (← objectAhead)
      let _ ← g.valueAt place
  else
    let _ ← g.valueAt place

/-- An arrow function with its parameters in parentheses. -/
def arrowFunction (g : Grammar) (place : Place) : Reader Shape := do
  skipOptional (typeParameters g)
  g.parameters
  unless place.beforeColon do
    skipOptional do
      mark ":"
      result g .never
      guard (← ahead "=>")
  mark "=>"
  arrowBody g place
  return {}

/-- A function. -/
def function (g : Grammar) : Reader Shape := do
  skipOptional (keyword "async")
  keyword "function"
  skipOptional (mark "*")
  skipOptional word
  signature g .never
  g.block
  return {}

/-- A class. -/
def classValue (g : Grammar) : Reader Shape := do
  skipOptional (decorators g)
  keyword "class"
  skipOptional className
  classRest g
  return {}

/-! ## Operands -/

/-- Something in parentheses. -/
def parenthesized (g : Grammar) : Reader Shape := do
  mark "("
  let _ ← g.valueAt .inner
  typeNote g .never <|> (do let _ ← many (do mark ","; g.valueAt .inner))
  mark ")"
  return { parenthesized := true, updatable := true }

/-- A dynamic import, or something about the module itself. -/
def importOperand (g : Grammar) : Reader Shape := do
  keyword "import"
  if ← ahead "." then
    mark "."
    let _ ← word
    return Shape.property
  else
    skipOptional (typeArguments g)
    importArguments g
    return {}

/-- An operand that ends with the expression behind it. -/
def withOperand (g : Grammar) (place : Place) : Reader Shape := do
  let _ ← g.valueAt place
  return {}

/-- The rest of a construction after its first word. Only the first arguments belong to it. -/
def construction (g : Grammar) (operand : Reader Shape) : Reader Shape := do
  (do
    mark "."
    keyword "target") <|>
  (do
    guard ((← lookWord) ≠ "new".toList)
    let _ ← operand
    let _ ← many (typeProperty <|> mark "!" <|>
      (do mark "["; let _ ← g.values .inner; mark "]") <|> template (do let _ ← g.values .inner))
    skipOptional (typeArguments g)
    skipOptional (do let _ ← arguments g))
  return {}

/-- An operand that begins with a word. -/
def wordOperand (g : Grammar) (place : Place) (operand : Reader Shape) : Reader Shape := do
  let w ← lookWord
  guard (w ≠ [])
  let is (s : String) : Bool := w == s.toList
  if is "function" then function g
  else if is "class" then classValue g
  else if is "new" then do let _ ← word; construction g operand
  else if is "typeof" || is "void" || is "delete" || is "await" then
    do let _ ← word; withOperand g place
  else if is "yield" then do
    let _ ← word
    if !(← ends place.ending) then
      (do mark "*"; let _ ← g.valueAt place) <|> skipOptional (g.valueAt place)
    return {}
  else if is "import" then importOperand g
  else if ["this", "super", "true", "false", "null", "undefined"].any is then
    do let _ ← word; return {}
  else
    (do
      guard (is "async")
      let _ ← word
      guard !(← ends place.ending)
      (do let _ ← word; mark "=>"; arrowBody g place; return {}) <|> arrowFunction g place) <|>
    (do
      guard (is "async")
      guard !(← test (do let _ ← word; guard (← ends place.ending)))
      function g) <|>
    (do
      let n ← name
      if ← ahead "=>" then
        mark "=>"
        arrowBody g place
        return {}
      else return Shape.named n)

/-- An operand, with nothing appended to it. It is told how to read an operand in the place of a
constructor. -/
def operandWith (g : Grammar) (place : Place) (constructor : Reader Shape) : Reader Shape := do
  let _ ← beginOperand
  match ← look with
  | '(' :: _ => arrowFunction g place <|> parenthesized g
  | '[' :: _ => arrayShape g
  | '{' :: _ => objectShape g
  | '\u0060' :: _ => do template (do let _ ← g.values .inner); return {}
  | '/' :: _ => do lexeme regex?; return {}
  | '+' :: '+' :: _ => do mark "++"; withOperand g place
  | '-' :: '-' :: _ => do mark "--"; withOperand g place
  | '+' :: _ => do mark "+"; withOperand g place
  | '-' :: _ => do mark "-"; withOperand g place
  | '!' :: _ => do mark "!"; withOperand g place
  | '~' :: _ => do mark "~"; withOperand g place
  | '<' :: _ => arrowFunction g place <|> do typeArguments g; withOperand g place
  | '@' :: _ => classValue g
  | '#' :: _ => do privateName; keyword "in"; withOperand g place
  | c :: rest =>
    if c == '"' || c == '\'' then return { literal := some (← string) }
    else if (number? (c :: rest)).isSome then do lexeme number?; return {}
    else wordOperand g place constructor
  | [] => failure

/-- An operand that can be constructed: one that is no construction itself. -/
def constructorOperand (g : Grammar) (place : Place) : Reader Shape :=
  operandWith g place failure

/-- An operand. -/
def operand (g : Grammar) (place : Place) : Reader Shape :=
  operandWith g place (constructorOperand g place)

/-! ## What is appended -/

/-- The words that are operators. -/
def operatorWords : List String := ["in", "instanceof", "as", "satisfies"]

/-- Whether an operand may follow here. -/
def operandAhead : Reader Bool := do
  match ← look with
  | [] => return false
  | c :: rest =>
    let w := (c :: rest).take (wordLength (c :: rest))
    return (w ≠ [] && !(operatorWords.map String.toList).contains w) || (number? (c :: rest)).isSome ||
      c ∈ ['"', '\'', '\u0060', '(', '[', '{', '+', '-', '!', '~', '/', '<', '@', '#']

/-- Types appended in angle brackets. Without arguments behind them they count only where they cannot
be two comparisons. -/
def appendedTypes (g : Grammar) (place : Place) : Reader Shape := do
  typeArguments g
  if ← ahead "(" then
    let _ ← arguments g
    return {}
  else
    guard (place.heritage || (← ends place.ending) || !(← operandAhead))
    return {}

/-- Appends a property, an index, arguments, a template or a mark to an operand. -/
def append (g : Grammar) (place : Place) (s : Shape) : Reader Shape := do
  guard s.value
  guard !(← ends place.ending)
  match ← look with
  | '(' :: _ => do let _ ← arguments g; return {}
  | '[' :: _ => do mark "["; let _ ← g.values .inner; mark "]"; return Shape.property
  | '\u0060' :: _ => do template (do let _ ← g.values .inner); return {}
  | '.' :: _ => do mark "."; privateName <|> (do let _ ← word); return Shape.property
  | '?' :: '.' :: c :: _ =>
    guard !(isDigit c)
    mark "?."
    match ← look with
    | '(' :: _ => do let _ ← arguments g; return {}
    | '[' :: _ => do mark "["; let _ ← g.values .inner; mark "]"; return Shape.property
    | '<' :: _ => do typeArguments g; let _ ← arguments g; return {}
    | _ => do privateName <|> (do let _ ← word); return Shape.property
  | '!' :: '=' :: _ => failure
  | '!' :: _ => do mark "!"; return Shape.property
  | '+' :: '+' :: _ => do mark "++"; return {}
  | '-' :: '-' :: _ => do mark "--"; return {}
  | '<' :: _ => appendedTypes g place
  | _ =>
    keyword "as" <|> keyword "satisfies"
    g.type place.ending
    return {}

/-! ## Operators -/

/-- What an operator does to the operand in front of it. -/
inductive Operator where
  | assign
  | update
  | combine
deriving DecidableEq

/-- Whether an operator may follow something. -/
def Operator.fits (s : Shape) : Operator → Bool
  | assign => s.target.isSome || s.parenthesized
  | update => s.updatable
  | combine => s.value

/-- The operators that are no words, longer ones first. -/
def operators : List (String × Option Operator) := [
  (">>>=", some .update), (">>>", some .combine), ("===", some .combine), ("!==", some .combine),
  ("**=", some .update), ("<<=", some .update), (">>=", some .update), ("&&=", some .update),
  ("||=", some .update), ("??=", some .update), ("=>", none), ("?.", none), ("++", none),
  ("--", none), ("==", some .combine), ("!=", some .combine), ("<=", some .combine),
  (">=", some .combine), ("&&", some .combine), ("||", some .combine), ("??", some .combine),
  ("**", some .combine), ("<<", some .combine), (">>", some .combine), ("+=", some .update),
  ("-=", some .update), ("*=", some .update), ("/=", some .update), ("%=", some .update),
  ("&=", some .update), ("|=", some .update), ("^=", some .update), ("=", some .assign),
  ("+", some .combine), ("-", some .combine), ("*", some .combine), ("/", some .combine),
  ("%", some .combine), ("&", some .combine), ("|", some .combine), ("^", some .combine),
  ("<", some .combine), (">", some .combine)]

/-- Reads an operator. -/
def readOperator : Reader Operator := do
  let rest ← look
  match operators.find? fun (m, _) => m.toList.isPrefixOf rest with
  | some (m, some o) => mark m; return o
  | some (_, none) => failure
  | none => keyword "in" <|> keyword "instanceof"; return .combine

/-- The question mark of a conditional. It is none when a colon, a closing parenthesis or a comma comes
next, and none in front of a point that begins no numeral. -/
def questionMark : Reader Unit := do
  match ← look with
  | '?' :: rest =>
    let next := rest.dropWhile isLineBlank
    guard (rest.head? ≠ some '?')
    match next with
    | '.' :: d :: _ => guard (isDigit d)
    | c :: _ => guard (c ∉ ['.', ':', ')', ','])
    | [] => pure ()
    mark "?"
  | _ => failure

/-- The rest of a conditional after its condition. What stands before the colon may be a function with
or without a result type, so both readings are tried. -/
def conditional (g : Grammar) (place : Place) : Reader Shape := do
  questionMark
  (do let _ ← g.valueAt .inner; mark ":") <|>
    (do let _ ← g.valueAt { beforeColon := true }; mark ":")
  let _ ← g.valueAt place
  return {}

/-- The rest of an expression after an operand. -/
def operation (g : Grammar) (place : Place) (s : Shape) : Reader Shape := do
  guard !(← ends place.ending)
  (do
    let o ← readOperator
    guard (o.fits s)
    let _ ← g.valueAt place
    return if o = .assign then { defaulted := s.target } else {}) <|>
  (do
    guard s.value
    conditional g place)

/-- An expression without a comma. -/
def expressionBody (g : Grammar) (place : Place) : Reader Shape := do
  let s ← operand g place
  let s ← iterate (append g place) s
  operation g place s <|> return s

end Playground.Source
