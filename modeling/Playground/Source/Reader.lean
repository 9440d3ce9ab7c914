import Playground.Source.Outline
import Playground.Source.Semicolon
/-!
# Reading source

A reader takes a cursor in the source and either fails or gives a result with
the cursor behind what it read. Failure leaves nothing behind, so an
alternative starts afresh. The cursor stands right behind the last lexeme:
blanks and comments are passed over only in front of the next one, because
where a statement ends depends on them.
-/

namespace Playground.Source

/-- A place in the source, with the dynamic imports of a literal that were read so far, latest first. -/
structure Cursor where
  rest : List Char
  pos : Nat := 0
  calls : List ImportCall := []

/-- A reader of some part of the source. -/
abbrev Reader (α : Type) := StateT Cursor Option α

namespace Cursor

/-- The cursor `n` characters on. -/
def advance (c : Cursor) (n : Nat) : Cursor :=
  { c with rest := c.rest.drop n, pos := c.pos + n }

/-- The cursor in front of the next lexeme. -/
def skipTrivia (c : Cursor) : Cursor :=
  c.advance (triviaLength c.rest)

/-- The cursor in front of the next lexeme where comments in the manner of markup are passed over. -/
def skipMarkup : Nat → Cursor → Cursor
  | 0, c => c.skipTrivia
  | fuel + 1, c =>
    let c := c.skipTrivia
    match markupComment? c.rest with
    | some n => skipMarkup fuel (c.advance n)
    | none => c

end Cursor

namespace Reader

/-- The source from the next lexeme on. The cursor stays. -/
def look : Reader (List Char) := do
  return (← get).skipTrivia.rest

/-- Goes on to the next lexeme and says where it begins. -/
def begin : Reader Nat := do
  let c := (← get).skipTrivia
  set c
  return c.pos

/-- Goes on to the next lexeme in a place where a statement or an operand begins. -/
def beginOperand : Reader Nat := do
  let c ← get
  let c := c.skipMarkup c.rest.length
  set c
  return c.pos

/-- Takes `n` characters. -/
def take (n : Nat) : Reader (List Char) := do
  let c ← get
  set (c.advance n)
  return c.rest.take n

/-- Whether the next lexeme begins with these characters. -/
def ahead (mark : String) : Reader Bool := do
  return mark.toList.isPrefixOf (← look)

/-- Reads these characters. -/
def mark (m : String) : Reader Unit := do
  let _ ← begin
  guard (m.toList.isPrefixOf (← get).rest)
  let _ ← take m.length

/-- The next word; empty when the next lexeme is none. The cursor stays. -/
def lookWord : Reader (List Char) := do
  let rest ← look
  return rest.take (wordLength rest)

/-- Reads a word. -/
def word : Reader (List Char) := do
  let _ ← begin
  let n := wordLength (← get).rest
  guard (n ≠ 0)
  take n

/-- Reads this very word. -/
def keyword (w : String) : Reader Unit := do
  guard ((← word) == w.toList)

/-- Whether the next lexeme is this word. -/
def aheadWord (w : String) : Reader Bool := do
  return (← lookWord) == w.toList

/-- If the next lexeme is this word, reads it and what has to follow it. -/
def afterKeyword (w : String) (p : Reader Unit) : Reader Unit := do
  if ← aheadWord w then
    keyword w
    p

/-- Reads a word as a name. -/
def name : Reader Text := do
  return Text.ofChars (← word)

/-- Reads a lexeme whose length is given by `length`. -/
def lexeme (length : List Char → Option Nat) : Reader Unit := do
  let _ ← begin
  match length (← get).rest with
  | some n => let _ ← take n
  | none => failure

/-- Reads a string literal. Its text is what stands between the quotes. -/
def string : Reader ImportSite := do
  let start ← begin
  match string? (← get).rest with
  | some n =>
    let cs ← take n
    return ⟨⟨start, start + n⟩, Text.ofChars ((cs.drop 1).take (n - 2))⟩
  | none => failure

/-- Runs a reader and gives the source that it read. -/
def sliceOf {α : Type} (p : Reader α) : Reader Text := do
  let start ← begin
  let c ← get
  let _ ← p
  return Text.ofChars (c.rest.take ((← get).pos - start))

/-- Runs a reader for what it passes over, if it succeeds. -/
def skipOptional {α : Type} (p : Reader α) : Reader Unit :=
  (do let _ ← p) <|> pure ()

/-- Runs a reader for its success only; the cursor stays. -/
def test {α : Type} (p : Reader α) : Reader Bool := fun c =>
  some ((p c).isSome, c)

/-- Applies a step at most `fuel` times, as long as it succeeds. -/
def iterateFrom {α : Type} (step : α → Reader α) : Nat → α → Reader α
  | 0, a, c => some (a, c)
  | fuel + 1, a, c =>
    match step a c with
    | some (b, d) => iterateFrom step fuel b d
    | none => some (a, c)

/-- Applies a step as long as it succeeds. A step that succeeds must read something, so that the rest of
the source bounds the steps. -/
def iterate {α : Type} (step : α → Reader α) (a : α) : Reader α := fun c =>
  iterateFrom step (c.rest.length + 1) a c

/-- Runs a reader as long as it succeeds. -/
def many {α : Type} (p : Reader α) : Reader (List α) := do
  let found ← iterate (fun acc => do return (← p) :: acc) []
  return found.reverse

/-- Items with commas between them, at least one. -/
def commaList {α : Type} (p : Reader α) : Reader (List α) := do
  let first ← p
  let more ← many (do mark ","; p)
  return first :: more

/-- Items with commas between them, any of which may be missing. -/
def sparseList {α : Type} (p : Reader α) : Reader (List α) := do
  let first ← optional p
  let more ← many (do mark ","; optional p)
  return (first :: more).filterMap id

/-- Items with commas between them, perhaps none, and perhaps a comma after the last. -/
def looseList {α : Type} (p : Reader α) : Reader (List α) := do
  match ← optional p with
  | none => return []
  | some first =>
    let more ← many (do mark ","; p)
    skipOptional (mark ",")
    return first :: more

/-- Whether a missing semicolon is supplied here. -/
def ends (ending : Ending) : Reader Bool := do
  let rest := (← get).rest
  return (missingSemicolon? ending (rest.length + 1) 0 rest).isSome

/-- Reads a semicolon or passes the place where a missing one is supplied. -/
def semicolon (ending : Ending) : Reader Unit := do
  let rest := (← get).rest
  match missingSemicolon? ending (rest.length + 1) 0 rest with
  | some n => let _ ← take n
  | none => mark ";"

end Reader

end Playground.Source
