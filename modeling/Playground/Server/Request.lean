import Playground.Json.Lenient
import Playground.Json.Parser
import Playground.Session
import Playground.Text.Encoding
import Playground.Text.Percent
/-!
# Requests

A request names a route by its method and path, and may carry a query and a
body. It comes to a call, or it is answered with a status that tells what is
wrong with it: the route, then the body's encoding, then the contents of the
body and of the query.
-/

namespace Playground.Server

/-- A request as it arrives. -/
structure Request where
  method : Text
  path : Text
  query : List (Text × Text) := []
  body : Bytes := []

/-- The status of an answer. -/
inductive Status where
  | ok
  /-- The path is the one of a route but for a slash at its end. -/
  | redirect
  | badRequest
  | notFound
  | methodNotAllowed
  /-- The contents of a request are not what the route takes. -/
  | unprocessable
  /-- The answer cannot be encoded. -/
  | failed
deriving DecidableEq, Repr

/-- The number of a status. -/
def Status.code : Status → Nat
  | .ok => 200
  | .redirect => 307
  | .badRequest => 400
  | .notFound => 404
  | .methodNotAllowed => 405
  | .unprocessable => 422
  | .failed => 500

/-! ## Queries -/

/-- A text up to the first `sep`, and what follows it. -/
def cut (sep : Char) (t : Text) : Text × Option Text :=
  let sep := CodePoint.ofChar sep
  match t.dropWhile (· ≠ sep) with
  | [] => (t, none)
  | _ :: rest => (t.takeWhile (· ≠ sep), some rest)

/-- A name or a value of a query with its escapes undone. A plus sign stands for a blank. -/
def unescape (t : Text) : Text :=
  Percent.decode
    (t.map fun c => if c = CodePoint.ofChar '+' then CodePoint.ofChar ' ' else c)

/-- The fields of a query. -/
def fieldsOfQuery (t : Text) : List (Text × Text) :=
  ((t.splitAt (CodePoint.ofChar '&')).filter (!·.isEmpty)).map fun field =>
    let (name, value) := cut '=' field
    (unescape name, unescape (value.getD []))

/-- The request for a target, which is a path perhaps with a query. -/
def Request.ofTarget (method target : Text) (body : Bytes) : Request :=
  let (path, query) := cut '?' target
  { method, path := Percent.decode path, query := (query.map fieldsOfQuery).getD [], body }

/-! ## Routes -/

/-- The routes. -/
inductive Route where
  | health
  | state
  | source
  | options
  | view
  | restore
  | output
  | events
deriving DecidableEq, Repr

namespace Route

/-- All routes. -/
def all : List Route := [health, state, source, options, view, restore, output, events]

/-- The path of a route. -/
def path : Route → Text
  | health => text "/health"
  | state => text "/state"
  | source => text "/state/source"
  | options => text "/state/options"
  | view => text "/state/view"
  | restore => text "/state/restore"
  | output => text "/output"
  | events => text "/events"

/-- The method of a route. -/
def method : Route → Text
  | health | state | output | events => text "GET"
  | source | options | view => text "PUT"
  | restore => text "POST"

/-- A path with a slash at its end, or without those that it has. -/
def toggleSlash (path : Text) : Text :=
  let slash := CodePoint.ofChar '/'
  if path.getLast? = some slash then (path.reverse.dropWhile (· = slash)).reverse
  else path ++ [slash]

/-- The route that a request is for. -/
def find (request : Request) : Except Status Route :=
  match all.filter fun r => r.path = request.path with
  | [] =>
    if request.path ≠ text "/" ∧ all.any fun r => r.path = toggleSlash request.path then
      .error .redirect
    else .error .notFound
  | here =>
    match here.find? fun r => r.method = request.method with
    | some r => .ok r
    | none => .error .methodNotAllowed

end Route

/-! ## Calls -/

/-- What a request asks for. The flag of a change says whether to answer only when everything has
happened that follows from it. -/
inductive Call where
  | health
  | showState
  | showOutput
  | setSource (source : Text) (wait : Bool)
  | setOptions (minify : Option MinifyMode) (strategy : Option EntryStrategy)
      (transpile : Option Bool) (wait : Bool)
  | setView (view : View)
  | restore (fragment : Text) (wait : Bool)
  | listen
deriving DecidableEq, Repr

/-- The value of a body. -/
def readBody (body : Bytes) : Except Status Json :=
  if body.isEmpty then .error .unprocessable
  else
    match Encoding.decode body with
    | none => .error .badRequest
    | some t =>
      match Json.parse t with
      | .ok value => .ok value
      | .error .malformed => .error .unprocessable
      | .error _ => .error .badRequest

/-- A value that must be there. -/
def need {α : Type} : Option α → Except Status α
  | some a => .ok a
  | none => .error .unprocessable

/-- The fields of a body. -/
def fieldsOfBody (body : Bytes) : Except Status (List (Text × Json)) := do
  match ← readBody body with
  | .obj fields => return fields
  | _ => .error .unprocessable

/-- A text among the fields. -/
def textField (fields : List (Text × Json)) (name : String) : Except Status Text :=
  need ((Json.field? fields (text name)).bind Json.text?)

/-- A field that may be missing or null. -/
def optionalField {α : Type} (fields : List (Text × Json)) (name : String)
    (read : Json → Option α) : Except Status (Option α) :=
  match Json.field? fields (text name) with
  | none | some .null => .ok none
  | some value => (need (read value)).map some

/-- Whether a request asks to wait. Of several fields the last one counts. -/
def waits (request : Request) : Except Status Bool :=
  match request.query.reverse.lookup (text "wait") with
  | none => .ok false
  | some t => need (Json.flagOfText? t)

/-- The call that a request for a route comes to. -/
def Route.call (request : Request) : Route → Except Status Call
  | health => .ok .health
  | state => .ok .showState
  | output => .ok .showOutput
  | events => .ok .listen
  | source => do
    let fields ← fieldsOfBody request.body
    return .setSource (← textField fields "source") (← waits request)
  | options => do
    let fields ← fieldsOfBody request.body
    let mode ← optionalField fields "minify" fun v => (MinifyMode.ofJson v).toOption
    let strategy ← optionalField fields "entry_strategy" fun v => (EntryStrategy.ofJson v).toOption
    let transpile ← optionalField fields "transpile" Json.lenientFlag?
    return .setOptions mode strategy transpile (← waits request)
  | view => do
    let fields ← fieldsOfBody request.body
    let chosen ← need ((Json.field? fields (text "view")).bind fun v => (View.ofJson v).toOption)
    return .setView chosen
  | restore => do
    let fields ← fieldsOfBody request.body
    return .restore (← textField fields "fragment") (← waits request)

/-- The call that a request comes to. -/
def Request.call (request : Request) : Except Status Call := do
  (← Route.find request).call request

end Playground.Server
