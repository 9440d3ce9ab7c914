import Playground.Source.Declarations
/-!
# Statements, imports and exports

A statement is told by its first word. Of imports and exports everything is
kept that linking needs; of all others only that they are well formed.
-/

namespace Playground.Source

open Reader

/-! ## Imports and exports -/

/-- A name of an export, which may be written as a string. -/
def exportName : Reader Text :=
  name <|> (do return (← string).source)

/-- The other name that is given to something. -/
def givenName (second : Reader Text) : Reader (Option Text) :=
  optional (do keyword "as"; second)

/-- The words that make an import or an export one of types. -/
def typeOnly : Reader Unit :=
  keyword "type" <|> keyword "typeof"

/-- Whether the next lexeme is one of the words that make an export one of types. -/
def typeOnlyAhead : Reader Bool :=
  test typeOnly

/-- An imported name with its local one. A string and the default need a local name. -/
def importedName : Reader (Text × Text) := do
  let isName ← test word
  let imported ← exportName
  let given ← givenName name
  guard (given.isSome || (isName && imported ≠ text "default"))
  return (imported, given.getD imported)

/-- An item of an import in braces. The word `type` is itself the imported name in front of `as` and at
the end of the item, and marks the name after it as one of a type elsewhere. -/
def importSpecifier : Reader (Text × Text) := do
  let typeIsName ← test do
    keyword "type"
    guard ((← aheadWord "as") || (← ahead ",") || (← ahead "\x7d"))
  if !typeIsName && (← typeOnlyAhead) then typeOnly
  importedName

/-- An item of an export in braces: a local name with its exported one. -/
def exportSpecifier : Reader (Text × Text) := do
  if ← typeOnlyAhead then typeOnly
  let exported ← exportName
  return (exported, (← givenName exportName).getD exported)

/-- Specifiers in braces. -/
def specifiers (p : Reader (Text × Text)) : Reader (List (Text × Text)) := do
  mark "\x7b"
  let found ← looseList p
  mark "\x7d"
  return found

/-- The word `from` and the source after it. -/
def fromSource : Reader Text := do
  keyword "from"
  return (← string).source

/-- The local name for all exports of a module. -/
def wholeModule : Reader Text := do
  mark "*"
  keyword "as"
  name

/-- What an import binds, apart from its source. -/
def importClause : Reader Import := do
  let nothing : Import := { span := ⟨0, 0⟩, source := [] }
  let several : Reader Import :=
    (do return { nothing with object := some (← wholeModule) }) <|>
      (do return { nothing with named := ← specifiers importSpecifier })
  several <|> do
    let n ← name
    let more ← optional (do mark ","; several)
    return { more.getD nothing with default := some n }

/-- What an import of one name by an equals sign stands for: a module, or a name in dots. Only the
former may be marked as one of types. -/
def importEquals : Reader Unit := do
  let marked ← optional (do typeOnly; guard ((← lookWord) ≠ []))
  guard !(← typeOnlyAhead)
  let _ ← name
  mark "="
  if ← aheadWord "require" then
    keyword "require"
    mark "("
    let _ ← string
    mark ")"
  else
    guard marked.isNone
    dottedName

/-- What an import statement says after its first word; `none` for one that is not of a module by its
source. The word `type` is the name of the default when `from` or a comma comes next. -/
def importBody : Reader (Option Import) := do
  let clause : Reader (Option Import) := do
    let clause ← importClause
    return some { clause with source := ← fromSource }
  let sourceOnly : Reader (Option Import) := do
    return some { span := ⟨0, 0⟩, source := (← string).source }
  let typeIsName ← test do
    keyword "type"
    guard ((← aheadWord "from") || (← ahead ","))
  let plain := sourceOnly <|> clause
  if typeIsName then clause
  else if ← typeOnlyAhead then (do typeOnly; plain) <|> (do importEquals; return none)
  else plain <|> (do importEquals; return none)

/-- An import statement; `none` for one that is not of a module by its source. -/
def importStatement (g : Grammar) : Reader (Option Import) := do
  let start ← begin
  keyword "import"
  let found ← importBody
  unless ← ends .plain do
    skipOptional do
      keyword "with"
      guard (← objectShape g).value
  semicolon .plain
  let stop := (← get).pos
  return found.map fun i => { i with span := ⟨start, stop⟩ }

/-- An export clause, perhaps with a source. -/
def exportClause : Reader Export := do
  let pairs ← specifiers exportSpecifier
  if ← ends .plain then
    semicolon .plain
    return .clause pairs
  else
    let source ← optional fromSource
    semicolon .plain
    return match source with
      | some s => .reExport s (.named pairs)
      | none => .clause pairs

/-- An export statement after its first word. -/
def exportRest (g : Grammar) : Reader Export := do
  match ← look with
  | '*' :: _ =>
    mark "*"
    let n ← optional (do keyword "as"; exportName)
    let source ← fromSource
    semicolon .plain
    return .reExport source (match n with
      | some n => .object n
      | none => .all)
  | '{' :: _ => exportClause
  | '=' :: _ =>
    mark "="
    let _ ← g.valueAt { ending := .value }
    semicolon .value
    return .other
  | _ =>
    if ← aheadWord "default" then
      keyword "default"
      let start ← begin
      let declared ← optional do
        guard ((← declarationAhead) || (← ahead "@"))
        g.declaration
      match declared with
      | some d => return .declaration true start d
      | none =>
        let _ ← g.valueAt { ending := .value }
        semicolon .value
        return .value start
    else if ← test (do keyword "type"; mark "\x7b") then
      keyword "type"
      exportClause
    else if ← aheadWord "as" then
      keyword "as"
      keyword "namespace"
      let _ ← word
      semicolon .plain
      return .other
    else
      let start ← begin
      return .declaration false start (← g.declaration)

/-- Whether an export statement exports something of its own, a declaration or a value. -/
def ofItsOwn : Export → Bool
  | .declaration _ _ _ | .value _ => true
  | _ => false

/-- An export statement. Decorators may stand in front of one that exports something of its own. -/
def exportStatement (g : Grammar) : Reader Export := do
  let decorated ← optional (decorators g)
  keyword "export"
  let found ← exportRest g
  guard (decorated.isNone || ofItsOwn found)
  return found

/-! ## Other statements -/

/-- The condition of a statement, in parentheses. -/
def condition (g : Grammar) : Reader Unit := do
  let _ ← parenthesized g

/-- The head of a loop over the members of something. -/
def memberLoopHead (g : Grammar) : Reader Unit := do
  (do
    keyword "var" <|> keyword "let" <|> keyword "const"
    let _ ← bindingPattern g
    keyword "in" <|> keyword "of") <|>
  (do
    let s ← operand g .inner
    let s ← iterate (append g .inner) s
    guard (s.target.isSome || s.parenthesized)
    keyword "in" <|> keyword "of")
  let _ ← g.values .inner
  mark ")"

/-- The head of a loop with a beginning, a condition and a step. -/
def countingLoopHead (g : Grammar) : Reader Unit := do
  (do let _ ← declarators g true; mark ";") <|> (do let _ ← g.values .inner; mark ";") <|> mark ";"
  (do let _ ← g.values .inner; mark ";") <|> mark ";"
  skipOptional (g.values .inner)
  mark ")"

/-- A case of a switch. -/
def switchCase (g : Grammar) : Reader Unit := do
  (do keyword "case"; let _ ← g.values .inner) <|> keyword "default"
  mark ":"
  let _ ← many do
    guard !((← aheadWord "case") || (← aheadWord "default"))
    g.statement

/-- The statements that are told by their first word, with what follows it. -/
def wordStatements (g : Grammar) : List (String × Reader Unit) := [
  ("if", do
    condition g
    g.statement
    afterKeyword "else" g.statement),
  ("for", do
    skipOptional (keyword "await")
    mark "("
    memberLoopHead g <|> countingLoopHead g
    g.statement),
  ("while", do condition g; g.statement),
  ("do", do
    g.statement
    keyword "while"
    condition g
    skipOptional (semicolon .plain)),
  ("switch", do
    condition g
    mark "\x7b"
    let _ ← many (switchCase g)
    mark "\x7d"),
  ("try", do
    g.block
    afterKeyword "catch" do
      skipOptional do
        mark "("
        let _ ← bindingPattern g
        skipOptional (typeNote g .never)
        mark ")"
      g.block
    afterKeyword "finally" g.block),
  ("with", do condition g; g.statement),
  ("break", do
    unless ← ends .plain do skipOptional word
    semicolon .plain),
  ("continue", do
    unless ← ends .plain do skipOptional word
    semicolon .plain),
  ("debugger", semicolon .plain),
  ("return", do
    let given ← if ← ends .plain then pure none else optional (g.values { ending := .value })
    semicolon (if given.isSome then .value else .plain)),
  ("throw", do
    let _ ← g.values { ending := .value }
    semicolon .value)]

/-- A value as a statement. -/
def valueStatement (g : Grammar) : Reader Unit := do
  let _ ← g.values { ending := .value }
  semicolon .value

/-- Whether an import statement follows, and not a value that begins with the same word. -/
def importAhead : Reader Bool := test do
  keyword "import"
  guard !((← ahead "(") || (← ahead ".") || (← ahead "<"))

/-- Whether the word `export` follows as a name. So it does at the end of its line, and in front of
what goes on with a value and does not begin an export. -/
def exportIsName : Reader Bool := test do
  keyword "export"
  unless ← ends .value do
    let w ← lookWord
    guard (w.isEmpty || ((operatorWords.map String.toList).contains w && w != "as".toList))
    let goesOn : Bool := match ← look with
      | '*' :: c :: _ => c == '*' || c == '='
      | '=' :: c :: _ => c == '=' || c == '>'
      | c :: _ => !(['*', '=', '\x7b', '@'].contains c)
      | [] => true
    guard goesOn

/-- A statement that begins with the word `export`. The result is none when the word is a name. -/
def exportOrValue (g : Grammar) : Reader (Option Export) := do
  if ← exportIsName then
    valueStatement g
    return none
  else return some (← exportStatement g)

/-- A statement. -/
def statementBody (g : Grammar) : Reader Unit := do
  let _ ← beginOperand
  match ← look with
  | '{' :: _ =>
    g.block <|> do
      guard (← objectAhead)
      valueStatement g
  | ';' :: _ => mark ";"
  | '@' :: _ =>
    (do let _ ← exportStatement g) <|> (do let _ ← g.declaration) <|> valueStatement g
  | _ =>
    let w ← lookWord
    match (wordStatements g).find? fun (first, _) => first.toList == w with
    | some (_, rest) =>
      let _ ← word
      rest
    | none =>
      if ← importAhead then
        let _ ← importStatement g
      else if w == "export".toList then
        let _ ← exportOrValue g
      else if ← declarationAhead then
        if w == "let".toList then
          (do let _ ← g.declaration) <|> valueStatement g
        else
          let _ ← g.declaration
      else if ← test (do let _ ← word; mark ":") then
        let _ ← word
        mark ":"
        g.statement
      else
        guard !(["abstract", "enum", "interface", "var", "const"].map String.toList).contains w
        valueStatement g

end Playground.Source
