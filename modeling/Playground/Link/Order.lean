import Playground.Link.Exports
/-!
# The order of modules in a chunk

A chunk holds the modules that its root needs at once, each behind the modules
that it needs itself. Where modules need each other in a circle, the circle is
cut where the search comes back to a module that it has not finished, and that
is warned of.
-/

namespace Playground.Link.Graph

/-- The modules that an id needs at once. -/
def staticDeps (modules : List Module) (id : Text) : List Text :=
  ((find? modules id).map Module.staticDeps).getD []

/-- A step of the search: puts what `id` needs, and then `id`, behind `done`. `active` are the modules
that the search has not finished. -/
def visit (modules : List Module) (fuel : Nat) (active : List Text) (id : Text)
    (done : List Text) : Warned (List Text) :=
  match fuel with
  | 0 => pure done
  | fuel + 1 =>
    if id ∈ done then pure done
    else if id ∈ active then do
      warn (text "Circular dependency through " ++ id)
      return done
    else do
      let done ← (staticDeps modules id).foldlM
        (fun done dep => visit modules fuel (id :: active) dep done) done
      return done ++ [id]

/-- The modules of a chunk in their order. No more modules can be active than there are. -/
def staticOrder (g : Graph) (root : Text) : Warned (List Text) :=
  visit g.modules (g.modules.length + 1) [] root []

end Playground.Link.Graph
