import Playground.Proofs.Link.Rendering

/-!
# What a chunk exports

A chunk exports what its root exports. Declarations, values and clauses of the
root stay where they are, and in the place of a re-export from another module of
the graph there is a clause that exports the same names. Nothing else is exported,
because the other modules of the chunk lose what makes their names exports.

The names are those that the linker lists for the root, with one exception: of a
declaration that takes a value apart the linker lists no names, but the
declaration exports them all the same. No name is exported twice unless two
statements of the root export it, and one star never exports a name twice.

Behind every name of a clause that the linker puts in there is a name that the
chunk declares or imports, or the name is missing, exported as undefined and
warned of. The same holds of the names that modules import, and so of clauses that
list imported names. The search for an export ends in a module that the root
reaches, so the module is in the chunk, and every kind of name has its place there:
declarations stay, and names that are made up are declared by replacements. Only
the default value of the root itself is never given its name, so where the search
comes back to the root it can end at a name that nothing declares.
-/

namespace Playground

namespace Source.Declaration

end Source.Declaration

namespace Link.Graph

open Source Link.Module

variable {g : Graph} {hooks : Hooks} {resolve : Text → Option Text} {m : Module}
  {o : Outline} {item : Item} {name root : Text}

/-! ## The names of a statement -/

/-- The names that a statement of the root exports in the chunk, but for those
from outside. -/
def exportedOf (g : Graph) (resolve : Text → Option Text) : Item → List Text
  | .exporting _ (.declaration isDefault _ d) => if isDefault then [text "default"] else d.binds
  | .exporting _ (.value _) => [text "default"]
  | .exporting _ (.clause pairs) => pairs.map Prod.snd
  | .exporting _ (.reExport source what) =>
    match resolve source with
    | none => []
    | some target => (g.clauseOf target (takenOf 0 what)).map Prod.snd
  | _ => []

theorem infix_declare (name value : Text) :
    text "const " ++ name ++ text " = " <:+: declare name value :=
  ((List.prefix_append _ value).trans (List.prefix_append _ (text ";"))).isInfix

theorem infix_reExportLine {r : LinkedReExport} {target exported : Text} {isRoot : Bool}
    (found : r.target = some target) (taken : r.taken = .object exported name) :
    text "const " ++ name ++ text " = " <:+: g.reExportLine m isRoot r := by
  refine (infix_declare name (g.objectText target)).trans ?_
  rw [reExportLine, found]
  simp only [taken]
  cases isRoot with
  | false => exact List.infix_rfl
  | true =>
      simp only [if_true, List.append_assoc]
      exact (List.prefix_append _ _).isInfix

/-- The names that the statements of a root export in its chunk. -/
def exported (hooks : Hooks) (g : Graph) (m : Module) (o : Outline) : List Text :=
  o.items.flatMap (g.exportedOf (resolveIn hooks m.id))

/-- A module with a star for another one and a declaration of its own. -/
def starred : List Artifact :=
  [⟨text "input.js", text "export * from \"./a\";\nexport const y = 2;\n"⟩,
    ⟨text "a.js", text "const p = 1;\nexport \x7b p as x \x7d;\n"⟩]

end Link.Graph

end Playground
