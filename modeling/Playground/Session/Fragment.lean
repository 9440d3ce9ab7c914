import Playground.Json.Parser
import Playground.Json.Printer
import Playground.Session
import Playground.Text.Base64
import Playground.Text.Blank
import Playground.Text.Percent
/-!
# Share links

A session is shared as the fragment of a link: a lead, and then the session as
compact JSON in UTF-8 in base64. Writing never fails, because both layers
under base64 let surrogates through. Reading never fails either: whatever is
not the fragment of a session stands for the default one. What a mail program
does to a link is undone first, that is percent escapes, blanks around the
token, the other base64 alphabet, and padding.
-/

namespace Playground

namespace Session

/-- A session as the object that a link carries. -/
def toJson (s : Session) : Json :=
  .obj [
    (text "code", .str s.source),
    (text "minify", .str s.minify.name),
    (text "entryStrategy", .str s.strategy.name),
    (text "transpile", .bool s.transpile),
    (text "view", .str s.view.name)]

/-- The text of a document field. -/
def sourceOf? : Json → Option Text
  | .str t => some t
  | _ => none

/-- The truth value of a flag. -/
def flagOf? : Json → Option Bool
  | .bool b => some b
  | _ => none

/-- A field read by `read`, or `default` when it is missing. A field that is there but unreadable spoils
the whole. -/
def fieldOr? {α : Type} (fields : List (Text × Json)) (name : String) (default : α)
    (read : Json → Option α) : Option α :=
  match Json.field? fields (text name) with
  | none => some default
  | some value => read value

/-- The session that an object describes, fields that are missing taken from `default`. -/
def ofJson? (default : Session) : Json → Option Session
  | .obj fields => do
    let source ← fieldOr? fields "code" default.source sourceOf?
    let transpile ← fieldOr? fields "transpile" default.transpile flagOf?
    let mode ← fieldOr? fields "minify" default.minify fun v => (MinifyMode.ofJson v).toOption
    let strategy ←
      fieldOr? fields "entryStrategy" default.strategy fun v => (EntryStrategy.ofJson v).toOption
    let view ← fieldOr? fields "view" default.view fun v => (View.ofJson v).toOption
    some { source, minify := mode, strategy, transpile, view }
  | _ => none

end Session

namespace Fragment

/-- The token for a session. -/
def token (s : Session) : Text :=
  Base64.encode (Utf8.encodeLoose (Json.render .compact s.toJson))

/-- The fragment for a session. -/
def encode (lead : Text) (s : Session) : Text :=
  lead ++ token s

/-- The session that a token stands for, if it stands for one. -/
def session? (default : Session) (token : Text) : Option Session := do
  let bytes ← Base64.decode (Percent.decode token).trim
  let document ← (Utf8.decodeLoose bytes).toOption
  let value ← (Json.parse document).toOption
  Session.ofJson? default value

/-- The session that a fragment stands for, or the default one. -/
def decode (lead : Text) (default : Session) (fragment : Text) : Session :=
  match Text.after? lead fragment with
  | none | some [] => default
  | some token => (session? default token).getD default

/-! ## Where the fragment is kept -/

/-- The place that holds the current fragment and counts how often it was written. -/
structure Holder where
  current : Text
  writes : Nat := 0
deriving DecidableEq, Repr

/-- Replaces the current fragment. -/
def Holder.write (h : Holder) (fragment : Text) : Holder :=
  { current := fragment, writes := h.writes + 1 }

end Fragment

end Playground
