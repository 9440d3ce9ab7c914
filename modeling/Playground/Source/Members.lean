import Playground.Source.Types
/-!
# Objects, arrays, classes and parameters

The constructs that hold members. An object or an array is read once and
remembered both as a value and as a pattern; what follows it decides which of
the two it is.
-/

namespace Playground.Source

open Reader

/-- A decorator. -/
def decorator (g : Grammar) : Reader Unit := do
  mark "@"
  (do
    let _ ← word
    let _ ← many (do mark "."; let _ ← word)
    skipOptional do
      skipOptional (typeArguments g)
      let _ ← arguments g) <|>
  (do
    mark "("
    let _ ← g.value
    mark ")")

/-- Decorators, at least one. -/
def decorators (g : Grammar) : Reader Unit := do
  decorator g
  let _ ← many (decorator g)

/-! ## Objects and arrays -/

/-- The head and the body of a method after its name. -/
def methodRest (g : Grammar) : Reader Unit := do
  skipOptional (mark "?")
  signature g .never
  g.block

/-- An entry of an object: whether it is one of a value, and what it binds as a part of a pattern. -/
abbrev Entry := Bool × Option Pattern

/-- A method with modifiers. -/
def modifiedMethod (g : Grammar) : Reader Entry := do
  let found ← modifiers memberModifiers
  let star ← optional (mark "*")
  guard (!found.isEmpty || star.isSome)
  propertyName g
  methodRest g
  return (true, none)

/-- An entry that begins with a name. -/
def namedEntry (g : Grammar) : Reader Entry := do
  let short ← lookWord
  propertyName g
  match ← look with
  | ':' :: _ =>
    mark ":"
    let s ← g.expression .inner
    return (s.value, s.part?)
  | '(' :: _ | '<' :: _ | '?' :: _ =>
    methodRest g
    return (true, none)
  | next =>
    guard (short ≠ [])
    let binding := Pattern.name (Text.ofChars short)
    if next.head? = some '=' then
      mark "="
      let _ ← g.value
      return (false, some binding)
    else return (true, some binding)

/-- An entry of an object. -/
def objectEntry (g : Grammar) : Reader Entry :=
  (do
    mark "..."
    let s ← g.expression .inner
    return (s.value, s.target)) <|>
  modifiedMethod g <|> namedEntry g

/-- An object, or a pattern for one. -/
def objectShape (g : Grammar) : Reader Shape := do
  mark "\x7b"
  let entries ← sparseList (objectEntry g)
  mark "\x7d"
  return {
    value := entries.all Prod.fst
    target := (entries.mapM Prod.snd).map Pattern.parts }

/-- An element of an array. -/
def arrayElement (g : Grammar) : Reader Entry := do
  let spread ← optional (mark "...")
  let s ← g.expression .inner
  return (s.value, if spread.isSome then s.target else s.part?)

/-- An array, or a pattern for one. -/
def arrayShape (g : Grammar) : Reader Shape := do
  mark "["
  let entries ← sparseList (arrayElement g)
  mark "]"
  return {
    value := entries.all Prod.fst
    target := (entries.mapM Prod.snd).map Pattern.parts }

/-! ## Patterns and parameters -/

/-- What a declarator or a parameter binds. -/
def bindingPattern (g : Grammar) : Reader Pattern := do
  match ← look with
  | '{' :: _ =>
    match (← objectShape g).target with
    | some p => return p
    | none => failure
  | '[' :: _ =>
    match (← arrayShape g).target with
    | some p => return p
    | none => failure
  | _ => return .name (← name)

/-- A parameter. -/
def parameter (g : Grammar) : Reader Unit := do
  skipOptional (decorators g)
  let _ ← iterate (fun () => do
    let w ← word
    guard ((["public", "private", "protected", "override", "readonly"].map String.toList).contains w)
    guard ((← lookWord) ≠ [] || (← ahead "\x7b") || (← ahead "["))) ()
  skipOptional (mark "...")
  let _ ← bindingPattern g
  skipOptional (mark "?")
  skipOptional (typeNote g .never)
  skipOptional do
    mark "="
    let _ ← g.value

/-- Parameters in parentheses. -/
def parametersBody (g : Grammar) : Reader Unit := do
  mark "("
  let _ ← looseList (parameter g)
  mark ")"

/-! ## Classes -/

/-- The modifiers of a member of a class, in their order. -/
def classModifiers : List String :=
  ["declare", "public", "private", "protected", "declare", "static", "override", "abstract",
    "readonly", "abstract", "accessor", "async", "get", "set"]

/-- The end of a member without a body. -/
def memberEnd (ending : Ending) : Reader Unit :=
  mark "," <|> semicolon ending

/-- A method, a property or the signature of one. -/
def classMember (g : Grammar) : Reader Unit := do
  let found ← modifiers classModifiers
  let star ← optional (mark "*")
  propertyName g
  skipOptional (mark "?" <|> mark "!")
  if (← ahead "(") || (← ahead "<") then
    signature g .head
    if ← ahead "\x7b" then g.block else memberEnd .head
  else
    guard (star.isNone && !found.any (fun m => m ∈ ["async", "get", "set"]))
    skipOptional (typeNote g .plain)
    let given ← optional do
      mark "="
      g.valueAt { ending := .value }
    memberEnd (if given.isSome then .value else .plain)

/-- A member of a class, or a semicolon between members. -/
def classElement (g : Grammar) : Reader Unit :=
  mark ";" <|> do
    skipOptional (decorators g)
    (do keyword "static"; g.block) <|>
      (do indexSignature g; memberEnd .plain) <|>
      classMember g

/-- What a class extends and implements. -/
def heritage (g : Grammar) : Reader Unit := do
  skipOptional do
    keyword "extends"
    let _ ← commaList (g.valueAt { heritage := true })
  skipOptional do
    keyword "implements"
    let _ ← commaList (g.type .never)

/-- A class after its name. -/
def classRest (g : Grammar) : Reader Unit := do
  skipOptional (typeParameters g)
  heritage g
  mark "\x7b"
  let _ ← many (classElement g)
  mark "\x7d"

/-- The name of a class. -/
def className : Reader Text := do
  let n ← word
  guard !((["extends", "implements"].map String.toList).contains n)
  return Text.ofChars n

end Playground.Source
