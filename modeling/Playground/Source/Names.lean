import Playground.Source.Grammar
/-!
# Names of members, arguments and parameters in angle brackets

The parts that types, objects and classes have in common: the name of a
property, the modifiers in front of it, and lists of types.
-/

namespace Playground.Source

open Reader

/-- Whether the next lexeme may begin the name of a property. -/
def nameAhead : Reader Bool := do
  match ← look with
  | [] => return false
  | c :: rest =>
    return wordLength (c :: rest) ≠ 0 || isDigit c || c == '"' || c == '\'' || c == '[' || c == '#'

/-- A name that only a class can see. -/
def privateName : Reader Unit := do
  mark "#"
  guard (wordLength (← get).rest ≠ 0)
  let _ ← word

/-- The name of a property. -/
def propertyName (g : Grammar) : Reader Unit :=
  (do let _ ← word) <|> privateName <|> (do let _ ← string) <|> lexeme number? <|>
    (do mark "["; let _ ← g.value; mark "]")

/-- The modifiers of a member, each of which must come later in `order` than the one before. A word is
a modifier only in front of a name or of a star; otherwise it is the name itself. -/
def modifiersFrom (found : List String) : List String → Reader (List String)
  | [] => return found
  | m :: order => do
    let isModifier ← test do
      keyword m
      let named ← nameAhead
      let starred ← ahead "*"
      guard (named || starred)
    if isModifier then
      keyword m
      modifiersFrom (m :: found) order
    else modifiersFrom found order

/-- The modifiers of a member. -/
def modifiers (order : List String) : Reader (List String) :=
  modifiersFrom [] order

/-- Types in angle brackets. -/
def typeArguments (g : Grammar) : Reader Unit := do
  mark "<"
  let _ ← commaList (g.type .never)
  skipOptional (mark ",")
  mark ">"

/-- A parameter that stands for a type. -/
def typeParameter (g : Grammar) : Reader Unit := do
  skipOptional (do keyword "const"; guard ((← lookWord) ≠ []))
  let _ ← word
  skipOptional do
    keyword "extends" <|> mark ":"
    g.type .never
  skipOptional do
    mark "="
    g.type .never

/-- Parameters that stand for types, in angle brackets. -/
def typeParameters (g : Grammar) : Reader Unit := do
  mark "<"
  let _ ← commaList (typeParameter g)
  skipOptional (mark ",")
  mark ">"

/-- A colon and a type. -/
def typeNote (g : Grammar) (ending : Ending) : Reader Unit := do
  mark ":"
  g.type ending

/-- A statement that something is of a type. -/
def predicate (g : Grammar) (ending : Ending) : Reader Unit := do
  let _ ← word
  keyword "is"
  g.type ending

/-- What a function gives: a type, or a statement about one of its parameters. -/
def result (g : Grammar) (ending : Ending) : Reader Unit :=
  (do
    keyword "asserts"
    predicate g ending <|> (do let _ ← word)) <|>
  predicate g ending <|> g.type ending

/-- The head of a function without its name. -/
def signature (g : Grammar) (ending : Ending) : Reader Unit := do
  skipOptional (typeParameters g)
  g.parameters
  skipOptional do
    mark ":"
    result g ending

/-- Arguments in parentheses. -/
def arguments (g : Grammar) : Reader (List Shape) := do
  mark "("
  let found ← sparseList (do
    skipOptional (mark "...")
    g.value)
  mark ")"
  return found

/-- Whether a character may stand in front of the first argument without a comment. -/
def isSparse (c : Char) : Bool :=
  isBlank c || c == ','

/-- The arguments of a dynamic import. It is remembered if the first one is a literal and nothing is
done to it, with whether a comment stands in front of the literal. -/
def importArguments (g : Grammar) : Reader Unit := do
  mark "("
  let behind := (← get).rest
  let start := (← get).pos
  let first ← sparseList (do
    let spread ← optional (mark "...")
    let s ← g.value
    return if spread.isSome then none else s.literal)
  mark ")"
  match first with
  | some site :: _ =>
    let before := behind.take (site.span.start - start)
    modify fun c => { c with calls := ⟨site, !before.all isSparse⟩ :: c.calls }
  | _ => pure ()

/-- A template. Each substitution is read by `substitution`. -/
def template (substitution : Reader Unit) : Reader Unit := do
  mark "\u0060"
  let _ ← iterate (fun () => do
    let c ← get
    match c.rest with
    | '\\' :: rest =>
      match escape? rest with
      | some n => let _ ← take (n + 1)
      | none => failure
    | '$' :: '{' :: _ =>
      let _ ← take 2
      substitution
      mark "\x7d"
    | rest =>
      let n := templateRun 0 rest
      guard (n ≠ 0)
      let _ ← take n) ()
  guard ((← get).rest.head? = some '\u0060')
  let _ ← take 1

end Playground.Source
