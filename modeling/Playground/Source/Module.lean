import Playground.Source.Statements
/-!
# Modules

Reads the whole source of a module and gives its outline. A rule that calls
another one has read something or passes on to a rule of a lower kind, so a
small multiple of the length of the source bounds the depth of the calls.
-/

namespace Playground.Source

open Reader

/-- What each rule reads, given a reader for all rules. -/
def ruleBody (g : Grammar) : Grammar
  | .expression place => expressionBody g place
  | .type ending => typeBody g ending
  | .parameters => parametersBody g
  | .statement => statementBody g
  | .declaration => declarationBody g

/-- The grammar, to a given depth of calls. -/
def grammar : Nat → Grammar
  | 0 => fun _ => failure
  | depth + 1 => fun r => ruleBody (grammar depth) r

/-- An item at the top level of a module. -/
def item (g : Grammar) : Reader Item := do
  let start ← beginOperand
  let spanned (found : Export) : Reader Item := do
    return .exporting ⟨start, (← get).pos⟩ found
  let other : Reader Item := do
    g.statement
    return .other
  if ← importAhead then
    match ← importStatement g with
    | some found => return .importing found
    | none => return .other
  else if ← aheadWord "export" then
    match ← exportOrValue g with
    | some found => spanned found
    | none => return .other
  else if ← ahead "@" then (do spanned (← exportStatement g)) <|> other
  else other

/-- The first line of a module that a system is to run. -/
def interpreterLine : Reader Unit := do
  let c ← get
  match c.rest with
  | '#' :: '!' :: rest =>
    let _ ← take (2 + (rest.takeWhile (· != '\n')).length)
  | _ => pure ()

/-- A whole module. -/
def wholeSource (g : Grammar) : Reader (List Item) := do
  interpreterLine
  let items ← many (item g)
  let _ ← beginOperand
  guard (← get).rest.isEmpty
  return items

/-- The outline of a module; `none` when its source is not well formed. -/
def outline? (source : List Char) : Option Outline :=
  let depth := 4 * source.length + 16
  match wholeSource (grammar depth) { rest := source } with
  | some (items, c) => some { items, calls := c.calls }
  | none => none

end Playground.Source
