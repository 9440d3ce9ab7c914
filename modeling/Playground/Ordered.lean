/-!
# Collections in order of first appearance

Names and their values are kept in the order in which they first appeared, and
a later value takes the place of an earlier one.
-/

namespace Playground.Ordered

/-- Adds a member at the end unless it is there already. -/
def add {α : Type} [DecidableEq α] (a : α) (as : List α) : List α :=
  if a ∈ as then as else as ++ [a]

/-- Gives a key a value: a key that is there keeps its place. -/
def put {κ α : Type} [DecidableEq κ] (key : κ) (value : α) : List (κ × α) → List (κ × α)
  | [] => [(key, value)]
  | (k, v) :: rest => if k = key then (k, value) :: rest else (k, v) :: put key value rest

end Playground.Ordered
