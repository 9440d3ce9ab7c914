import Playground.Text.Quoted
import Playground.Text.Utf8.Message
/-!
# Why bundling fails
-/

namespace Playground

/-- Why a bundle cannot be made. -/
inductive BundleFailure where
  /-- No code is found for a module, which the importer needs. -/
  | unresolved (id : Text) (importer : Option Text)
  /-- The source of a module is not well formed. -/
  | badSource (id : Text)
  /-- The source of a module has surrogates. -/
  | unencodable (bad : Utf8.Unencodable)
  /-- What a module comes to in a chunk is no text. -/
  | undecodable (bad : Utf8.Malformed)
  /-- The output is asked for in a format that is not supported. -/
  | badFormat (format : Text)
  /-- More modules were referenced than the budget allows. -/
  | overBudget
deriving DecidableEq, Repr

/-- What a failure reads like. -/
def BundleFailure.message : BundleFailure → Text
  | unresolved id importer =>
    let place := match importer with
      | none | some [] => []
      | some i => text " (imported by " ++ i ++ text ")"
    text "Could not load " ++ id ++ place
  | badSource id => text "Syntax error in " ++ id
  | unencodable bad => bad.message
  | undecodable bad => bad.message
  | badFormat format => text "Unsupported output format " ++ format.quoted
  | overBudget => text "Too many modules"

end Playground
