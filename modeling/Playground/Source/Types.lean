import Playground.Source.Names
/-!
# Types

Types are passed over: they say nothing about a module's outline, except that a
type may import a module dynamically.
-/

namespace Playground.Source

open Reader

/-! ## Members of an object type -/

/-- What stands in brackets as the name of many properties at once. -/
def indexName (g : Grammar) : Reader Unit := do
  mark "["
  let _ ← word
  (do mark ":"; g.type .never) <|>
    (do
      keyword "in"
      g.type .never
      skipOptional (do keyword "as"; g.type .never))
  mark "]"

/-- The signature of many properties at once. -/
def indexSignature (g : Grammar) : Reader Unit := do
  skipOptional do
    skipOptional (mark "-" <|> mark "+")
    keyword "readonly"
    guard (← ahead "[")
  indexName g
  mark ":" <|> mark "?:" <|> mark "-?:" <|> mark "+?:"
  g.type .plain

/-- The signature of something that can be called or constructed. -/
def callSignature (g : Grammar) : Reader Unit := do
  skipOptional do
    skipOptional (keyword "abstract")
    keyword "new"
  guard ((← ahead "(") || (← ahead "<"))
  signature g .plain

/-- The modifiers of a property or a method, in their order. -/
def memberModifiers : List String :=
  ["public", "private", "protected", "static", "override", "readonly", "async", "get", "set"]

/-- The signature of a property or a method. -/
def namedSignature (g : Grammar) : Reader Unit := do
  let _ ← modifiers memberModifiers
  skipOptional (mark "*")
  propertyName g
  skipOptional (mark "?")
  if (← ahead "(") || (← ahead "<") then signature g .plain
  else skipOptional (typeNote g .plain)

/-- A member of an object type. -/
def typeMember (g : Grammar) : Reader Unit :=
  callSignature g <|> indexSignature g <|> namedSignature g

/-- What stands between members. -/
def memberSeparator : Reader Unit :=
  mark "," <|> semicolon .plain

/-- An object type. -/
def objectType (g : Grammar) : Reader Unit := do
  mark "\x7b|" <|> mark "\x7b"
  skipOptional (mark "," <|> mark ";")
  skipOptional do
    typeMember g
    let _ ← many (do memberSeparator; typeMember g)
    skipOptional memberSeparator
  mark "|\x7d" <|> mark "\x7d"

/-! ## Types -/

/-- A member of a tuple. -/
def tupleMember (g : Grammar) : Reader Unit :=
  (do
    skipOptional (mark "...")
    let _ ← word
    skipOptional (mark "?")
    typeNote g .never) <|>
  (do
    skipOptional (mark "...")
    g.type .never
    skipOptional (mark "?"))

/-- A step from something to a property of it. -/
def typeProperty : Reader Unit := do
  mark "." <|> mark "?."
  privateName <|> (do let _ ← word)

/-- A module imported as a type, with what is taken from it. -/
def importType (g : Grammar) : Reader Unit := do
  keyword "import"
  importArguments g
  let _ ← many (typeProperty <|> do let _ ← arguments g)

/-- The type of a value. -/
def typeQuery (g : Grammar) : Reader Unit := do
  keyword "typeof"
  importType g <|> do
    let _ ← word
    let _ ← many typeProperty
  skipOptional do
    guard (← ahead "(")
    let _ ← arguments g
    let _ ← many typeProperty
  skipOptional (typeArguments g)

/-- A named type, perhaps with arguments. -/
def typeName (g : Grammar) : Reader Unit := do
  let _ ← word
  let _ ← many (do mark "."; let _ ← word)
  skipOptional (typeArguments g)

/-- The type of a function. -/
def functionType (g : Grammar) (ending : Ending) : Reader Unit := do
  skipOptional (typeParameters g)
  g.parameters
  mark "=>"
  result g ending

/-- A type that begins with a word, and whether a suffix may follow it. -/
def wordType (g : Grammar) (ending : Ending) : Reader Bool := do
  let w ← lookWord
  if ["keyof", "readonly"].any fun k => k.toList == w then
    let _ ← word
    g.type ending
    return true
  else if w == "infer".toList then
    let _ ← word
    let _ ← word
    skipOptional (do keyword "extends"; g.type ending)
    return true
  else if w == "typeof".toList then
    typeQuery g
    return true
  else if w == "import".toList then
    importType g
    return false
  else
    (do
      skipOptional (keyword "abstract")
      keyword "new"
      functionType g ending
      return false) <|>
    (do
      keyword "unique"
      keyword "symbol"
      return true) <|>
    (do
      typeName g
      return true)

/-- A type without an operator behind it, and whether a suffix may follow it. -/
def typeOperand (g : Grammar) (ending : Ending) : Reader Bool := do
  match ← look with
  | '(' :: _ =>
    (do functionType g ending; return false) <|>
      (do mark "("; g.type .never; mark ")"; return true)
  | '<' :: _ => functionType g ending; return false
  | '{' :: _ => objectType g; return true
  | '[' :: _ =>
    mark "["
    skipOptional (commaList (tupleMember g))
    skipOptional (mark ",")
    mark "]"
    return true
  | '|' :: _ => mark "|"; g.type ending; return false
  | '&' :: _ => mark "&"; g.type ending; return false
  | '*' :: _ => mark "*"; return true
  | '?' :: _ => mark "?"; g.type ending; return true
  | '-' :: _ => mark "-"; lexeme number?; return true
  | '+' :: _ => mark "+"; lexeme number?; return true
  | '\u0060' :: _ => template (g.type .never); return true
  | c :: rest =>
    if c == '"' || c == '\'' then let _ ← string; return true
    else if (number? (c :: rest)).isSome then lexeme number?; return true
    else wordType g ending
  | [] => failure

/-- An array of something, or a member of it. -/
def typeSuffix (g : Grammar) (ending : Ending) : Reader Unit := do
  guard !(← ends ending)
  mark "["
  skipOptional (g.type .never)
  mark "]"

/-- What joins two types. -/
def typeOperator (g : Grammar) (ending : Ending) : Reader Unit := do
  guard !(← ends ending)
  match ← look with
  | '|' :: c :: _ => guard (c ≠ '|' && c ≠ '}'); mark "|"; g.type ending
  | '&' :: c :: _ => guard (c ≠ '&'); mark "&"; g.type ending
  | _ =>
    keyword "extends"
    g.type .never
    mark "?"
    g.type .never
    mark ":"
    g.type ending

/-- A type. -/
def typeBody (g : Grammar) (ending : Ending) : Reader Unit := do
  if ← typeOperand g ending then
    let _ ← many (typeSuffix g ending)
  skipOptional (typeOperator g ending)

end Playground.Source
