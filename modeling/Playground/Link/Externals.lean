import Playground.Json.Printer
import Playground.Link.Module
/-!
# Imports from outside

The imports of a chunk that stay imports are gathered at its top, those from
one source together: one statement for the default and the named ones, and one
for each name that stands for the whole source.
-/

namespace Playground.Link

/-- What a chunk imports from one source. -/
structure External where
  default : Option Text := none
  objects : List Text := []
  named : List (Text × Text) := []

/-- The imports of a chunk, by source in order of first appearance. -/
abbrev Externals := List (Text × External)

namespace Externals

/-- Adds an import to those from the same source. The first default counts. -/
def add (externals : Externals) (i : LinkedImport) : Externals :=
  let e : External := (externals.lookup i.source).getD {}
  Ordered.put i.source
    { default := e.default <|> i.default
      objects := (i.object.map fun o => Ordered.add o e.objects).getD e.objects
      named := i.named.foldl (fun pairs pair => Ordered.add pair pairs) e.named }
    externals

/-- Two names, of which the second is left out when it is the same. -/
def aliased (name other : Text) : Text :=
  if name = other then name else name ++ text " as " ++ other

/-- Names in braces. -/
def braced (names : List Text) : Text :=
  text "\x7b " ++ Text.join (text ", ") names ++ text " \x7d"

/-- The statements that import from one source. -/
def statements (source : Text) (e : External) : List Text :=
  let source := Json.renderString true source
  let named :=
    if e.named.isEmpty then []
    else [braced (e.named.map fun (name, other) => aliased name other)]
  let clause := e.default.toList ++ named
  let first :=
    if clause.isEmpty then []
    else [text "import " ++ Text.join (text ", ") clause ++ text " from " ++ source ++ text ";"]
  let whole := e.objects.map fun o => text "import * as " ++ o ++ text " from " ++ source ++ text ";"
  match first ++ whole with
  | [] => [text "import " ++ source ++ text ";"]
  | found => found

/-- The statements at the top of a chunk. -/
def render (externals : Externals) : Text :=
  Text.join (text "\n") (externals.flatMap fun (source, e) => statements source e)

end Externals

end Playground.Link
