import Playground.Text
/-!
# Paths

Paths are normalised as the file system would read them without looking at it:
empty parts and single dots vanish, and a double dot takes the part before it
away. At the beginning of a relative path double dots stay; at the root they
vanish. Exactly two slashes at the beginning stay two. A path that is only
tidied keeps all its double dots.
-/

namespace Playground.Path

/-- The sign between the parts of a path. -/
def separator : CodePoint := CodePoint.ofChar '/'

/-- The parts that are left of `parts`, given those that were kept before, latest first. -/
def keep (rooted : Bool) (kept : List Text) : List Text → List Text
  | [] => kept.reverse
  | part :: rest =>
    if part = [] ∨ part = text "." then keep rooted kept rest
    else if part = text ".." then
      match kept with
      | [] => keep rooted (if rooted then [] else [part]) rest
      | last :: before =>
        if last = text ".." then keep rooted (part :: kept) rest else keep rooted before rest
    else keep rooted (part :: kept) rest

/-- The slashes that a normalised path begins with. -/
def root (path : Text) : Text :=
  match (path.takeWhile (· = separator)).length with
  | 0 => []
  | 2 => [separator, separator]
  | _ => [separator]

/-- A path in its normal form. The empty path is the current directory. -/
def normalize (path : Text) : Text :=
  let root := root path
  let parts := keep (!root.isEmpty) [] (path.splitAt separator)
  match root ++ Text.join [separator] parts with
  | [] => text "."
  | normal => normal

/-- A path without empty parts and single dots. -/
def tidy (path : Text) : Text :=
  let parts := (path.splitAt separator).filter fun part => part ≠ [] ∧ part ≠ text "."
  match root path ++ Text.join [separator] parts with
  | [] => text "."
  | tidied => tidied

/-- The last part of a path. -/
def basename (path : Text) : Text :=
  (path.splitAt separator).getLastD []

end Playground.Path
