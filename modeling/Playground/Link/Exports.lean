import Playground.Link.Graph
/-!
# What an exported name stands for

An exported name leads through re-exports to a name in some module. The path is
followed with the places that it went through in mind, so that it ends also
where modules export each other's names in a circle. The names that a module
exports are its own and, through stars, those of others except their defaults.
-/

namespace Playground.Link.Graph

/-- How many places a path through re-exports can go through: pairs of a module and a name that is
asked for at the beginning or by some re-export. -/
def pathBound (modules : List Module) : Nat :=
  modules.length * (1 + (modules.flatMap Module.exports).length) + 1

/-- The name that an export stands for, `seen` being the places that led here. -/
def resolveFrom (modules : List Module) (fuel : Nat) (seen : List (Text × Text)) (id name : Text) :
    Option Text :=
  match fuel with
  | 0 => none
  | fuel + 1 =>
    if (id, name) ∈ seen then none
    else
      match find? modules id with
      | none => none
      | some m =>
        let seen := (id, name) :: seen
        match m.exports.lookup name with
        | some (.here n) => some n
        | some (.there next n) => resolveFrom modules fuel seen next n
        | none =>
          if name = text "default" then none
          else m.stars.findSome? fun star => resolveFrom modules fuel seen star name

/-- The name that an export of a module stands for. -/
def resolveExport (g : Graph) (id name : Text) : Option Text :=
  resolveFrom g.modules (pathBound g.modules) [] id name

/-- The names that a module exports, `seen` being the modules whose stars led here. -/
def namesFrom (modules : List Module) (fuel : Nat) (seen : List Text) (id : Text) : List Text :=
  match fuel with
  | 0 => []
  | fuel + 1 =>
    if id ∈ seen then []
    else
      match find? modules id with
      | none => []
      | some m =>
        m.stars.foldl
          (fun names star =>
            (namesFrom modules fuel (id :: seen) star).foldl
              (fun names name => if name = text "default" then names else Ordered.add name names)
              names)
          (m.exports.map Prod.fst)

/-- The names that a module exports, in order of first appearance. -/
def exportNames (g : Graph) (id : Text) : List Text :=
  namesFrom g.modules (g.modules.length + 1) [] id

/-- Work that gives warnings. The latest comes first. -/
abbrev Warned := StateM (List Text)

/-- Gives a warning. -/
def warn (message : Text) : Warned Unit :=
  modify (message :: ·)

/-- The name that an export stands for; a missing one is replaced and warned of. -/
def localFor (g : Graph) (id name importer : Text) : Warned Text := do
  match g.resolveExport id name with
  | some found => return found
  | none =>
    warn (text "\"" ++ name ++ text "\" is not exported by " ++ id ++ text ", imported by " ++
      importer)
    return text "undefined"

end Playground.Link.Graph
