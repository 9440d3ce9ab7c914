import Playground.Source.Expressions
/-!
# Declarations

What binds names, and how far the first words of a statement tell that it is a
declaration. Many of those words are ordinary names as well; they begin a
declaration only if something that can be declared follows on the same line.
-/

namespace Playground.Source

open Reader

/-- Whether a word follows that is no operator, on this line. -/
def wordFollows : Reader Unit := do
  guard !(← ends .value)
  let w ← word
  guard !((operatorWords.map String.toList).contains w)

/-- Whether a declaration follows. -/
def declarationAhead : Reader Bool := test do
  let w ← word
  let is (s : String) : Bool := w == s.toList
  let functionFollows : Reader Unit := do
    keyword "function"
    skipOptional (mark "*")
    let _ ← word
  if is "function" then
    skipOptional (mark "*")
    let _ ← word
  else if is "async" then
    guard !(← ends .value)
    functionFollows
  else if is "class" then
    let _ ← className
  else if is "abstract" then keyword "class"
  else if ["enum", "interface", "var", "const"].any is then pure ()
  else if is "let" then
    wordFollows <|> do
      guard !(← ends .value)
      mark "\x7b" <|> mark "["
  else if is "type" || is "declare" then wordFollows
  else if is "namespace" || is "module" then
    wordFollows <|> do
      guard !(← ends .value)
      let _ ← string
  else failure

/-- A declarator, and whether it gives a value. -/
def declarator (g : Grammar) (closed : Bool) : Reader (Pattern × Bool) := do
  let p ← bindingPattern g
  let afterType : Ending := if closed then .never else .plain
  (do mark "!"; typeNote g afterType) <|> skipOptional (typeNote g afterType)
  let given ← optional do
    mark "="
    g.valueAt { ending := if closed then .never else .value }
  return (p, given.isSome)

/-- Declarators after their first word, and whether the last one gives a value. -/
def declarators (g : Grammar) (closed : Bool) : Reader (List Pattern × Bool) := do
  keyword "var" <|> keyword "let" <|> keyword "const"
  let found ← commaList (declarator g closed)
  return (found.map Prod.fst, (found.getLast?.map Prod.snd).getD false)

/-- Variables. -/
def variableDeclaration (g : Grammar) : Reader Declaration := do
  let (patterns, given) ← declarators g false
  semicolon (if given then .value else .plain)
  return .variableList patterns

/-- A function or the head of one. -/
def functionDeclaration (g : Grammar) : Reader Declaration := do
  skipOptional (keyword "async")
  keyword "function"
  skipOptional (mark "*")
  let n ← name
  signature g .head
  if ← ahead "\x7b" then g.block else semicolon .head
  return .named n

/-- A class. -/
def classDeclaration (g : Grammar) : Reader Declaration := do
  skipOptional (decorators g)
  skipOptional (keyword "abstract")
  keyword "class"
  let n ← className
  classRest g
  return .named n

/-- An enumeration. -/
def enumDeclaration (g : Grammar) : Reader Declaration := do
  skipOptional (keyword "const")
  keyword "enum"
  let n ← name
  mark "\x7b"
  let _ ← looseList do
    propertyName g
    skipOptional do
      mark "="
      let _ ← g.value
  mark "\x7d"
  return .named n

/-- An interface. -/
def interfaceDeclaration (g : Grammar) : Reader Declaration := do
  keyword "interface"
  let n ← name
  skipOptional (typeParameters g)
  skipOptional do
    keyword "extends"
    let _ ← commaList (g.type .never)
  objectType g
  return .named n

/-- A name for a type. -/
def typeDeclaration (g : Grammar) : Reader Declaration := do
  keyword "type"
  let n ← name
  skipOptional (typeParameters g)
  mark "="
  g.type .plain
  semicolon .plain
  return .named n

/-- A name with points in it. -/
def dottedName : Reader Unit := do
  let _ ← word
  let _ ← many (do mark "."; let _ ← word)

/-- A namespace. Its name is taken as it is written. -/
def namespaceDeclaration (g : Grammar) : Reader Declaration := do
  keyword "namespace" <|> keyword "module"
  let n ← sliceOf ((do let _ ← string) <|> dottedName)
  skipOptional g.block
  return .named n

/-- A declaration of something that exists elsewhere. -/
def ambientDeclaration (g : Grammar) : Reader Declaration := do
  keyword "declare"
  (do keyword "global"; g.block) <|>
    (do
      keyword "module"
      mark "."
      let _ ← word
      typeNote g .plain
      semicolon .plain) <|>
    (do let _ ← g.declaration)
  return .nameless

/-- Another name for something in a namespace. -/
def aliasDeclaration : Reader Declaration := do
  keyword "import"
  let _ ← word
  mark "="
  dottedName
  semicolon .plain
  return .nameless

/-- A declaration. -/
def declarationBody (g : Grammar) : Reader Declaration := do
  let w ← lookWord
  let is (s : String) : Bool := w == s.toList
  if is "function" || is "async" then functionDeclaration g
  else if is "class" || is "abstract" || w = [] then classDeclaration g
  else if is "const" then enumDeclaration g <|> variableDeclaration g
  else if is "var" || is "let" then variableDeclaration g
  else if is "enum" then enumDeclaration g
  else if is "interface" then interfaceDeclaration g
  else if is "type" then typeDeclaration g
  else if is "namespace" || is "module" then namespaceDeclaration g
  else if is "declare" then ambientDeclaration g
  else if is "import" then aliasDeclaration
  else failure

end Playground.Source
