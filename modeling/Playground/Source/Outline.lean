import Playground.Text
/-!
# The outline of a module

What linking needs to know of a module's source: where its imports and exports
stand, what they name, which names its declarations bind, and where a literal
names a module that is imported dynamically. Positions count characters from the
beginning of the source.
-/

namespace Playground.Source

/-- A stretch of the source. -/
structure Span where
  start : Nat
  stop : Nat
deriving DecidableEq, Repr

/-- What a declaration may bind: a name, or the parts of a structure. A part that is no name and no
structure, such as a property of some object, binds nothing. -/
inductive Pattern where
  | name (x : Text)
  | parts (ps : List Pattern)
  | other
deriving Repr

mutual

/-- The names that a pattern binds, in the order of the source. -/
def Pattern.binds : Pattern → List Text
  | .name x => [x]
  | .parts ps => Pattern.bindsAll ps
  | .other => []

/-- The names that some patterns bind. -/
def Pattern.bindsAll : List Pattern → List Text
  | [] => []
  | p :: rest => p.binds ++ Pattern.bindsAll rest

end

/-- A declaration. -/
inductive Declaration where
  /-- Variables, one pattern for each declarator. -/
  | variableList (patterns : List Pattern)
  /-- Something with one name. -/
  | named (x : Text)
  /-- Something that binds no name by itself. -/
  | nameless
deriving Repr

namespace Declaration

/-- The names that a declaration binds. -/
def binds : Declaration → List Text
  | variableList patterns => Pattern.bindsAll patterns
  | named x => [x]
  | nameless => []

/-- The name of a pattern that is a plain name. -/
def plainName? : Pattern → Option Text
  | .name x => some x
  | _ => none

/-- The names under which a declaration is known to other modules: of variables, only those that are
declared by a plain name. -/
def names : Declaration → List Text
  | variableList patterns => patterns.filterMap plainName?
  | named x => [x]
  | nameless => []

end Declaration

/-- An import statement. -/
structure Import where
  span : Span
  source : Text
  default : Option Text := none
  /-- The local name for all exports as one object. -/
  object : Option Text := none
  /-- Pairs of an imported and a local name. -/
  named : List (Text × Text) := []
deriving Repr

/-- What a re-export takes from its source. -/
inductive ReExported where
  /-- Everything but the default. -/
  | all
  /-- Everything as one object of this name. -/
  | object (exported : Text)
  /-- Pairs of an imported and an exported name. -/
  | named (pairs : List (Text × Text))
deriving Repr

/-- An export statement. -/
inductive Export where
  /-- A declaration, which begins at `start`. -/
  | declaration (isDefault : Bool) (start : Nat) (declaration : Declaration)
  /-- A default value, which begins at `start`. -/
  | value (start : Nat)
  /-- Pairs of a local and an exported name. -/
  | clause (pairs : List (Text × Text))
  /-- Exports taken from another module. -/
  | reExport (source : Text) (what : ReExported)
  /-- A statement of a form that exports nothing to other modules. -/
  | other
deriving Repr

/-- A statement at the top level of a module. -/
inductive Item where
  | importing (item : Import)
  | exporting (span : Span) (item : Export)
  | other
deriving Repr

/-- A literal that is the argument of a dynamic import. -/
structure ImportSite where
  span : Span
  source : Text
deriving DecidableEq, Repr

/-- A dynamic import whose first argument is a string literal. -/
structure ImportCall where
  literal : ImportSite
  /-- A comment stands between the parenthesis and the literal. -/
  commented : Bool
deriving DecidableEq, Repr

/-- The literal by which a dynamic import is known. It must be the first thing in the parentheses, even
before any comment. -/
def ImportCall.site? (call : ImportCall) : Option ImportSite :=
  if call.commented then none else some call.literal

/-- The outline of a module. -/
structure Outline where
  items : List Item
  /-- The dynamic imports of a literal, the one that was read last at first. -/
  calls : List ImportCall
deriving Repr

/-- Puts a site among others in the order of the source. -/
def insertSite (site : ImportSite) : List ImportSite → List ImportSite
  | [] => [site]
  | s :: rest => if site.span.start ≤ s.span.start then site :: s :: rest else s :: insertSite site rest

/-- The literals by which dynamic imports are known, in the order of the source. -/
def Outline.sites (o : Outline) : List ImportSite :=
  (o.calls.filterMap ImportCall.site?).foldr insertSite []

/-- The specifier of the module that a statement takes something from. -/
def Item.specifier? : Item → Option Text
  | .importing i => some i.source
  | .exporting _ (.reExport source _) => some source
  | _ => none

/-- The specifiers of a module, first those of its statements and then those of dynamic imports. -/
def Outline.specifiers (o : Outline) : List Text :=
  o.items.filterMap Item.specifier? ++ o.sites.map ImportSite.source

end Playground.Source
