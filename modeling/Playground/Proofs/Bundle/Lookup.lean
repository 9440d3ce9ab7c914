import Mathlib.Data.List.Nodup
import Playground.Bundle.Modules

/-!
# Which compiled module is found

A module is looked for twice. First every path is compared with the id, both in normal
form, and only when none of them is the id's a module counts whose path merely occurs in
the id. So where some path is the id's, nothing else is looked at. If no two paths have
one normal form, that module is the only one that can be found, wherever it stands and
whatever paths occur in the id.

Importers put a dot and a slash in front of a relative path. The normal form has neither,
because a dot is dropped wherever it stands as a part of its own. In front of a path that
begins at the root they would make another path of it.
-/

namespace Playground

namespace Path

variable {path : Text}

/-- A path that does not begin at the root. -/
def IsRelative (path : Text) : Prop :=
  path.head? ≠ some separator

instance : DecidablePred IsRelative :=
  fun path => inferInstanceAs (Decidable (path.head? ≠ some separator))

theorem root_of_isRelative (relative : IsRelative path) : root path = [] := by
  unfold root
  cases path with
  | nil => rfl
  | cons c path =>
      have other : c ≠ separator := fun same => relative (congrArg some same)
      rw [List.takeWhile_cons_of_neg (by simpa using other)]
      rfl

/-- A dot that is a part of its own is dropped. -/
theorem keep_dot (rooted : Bool) (kept parts : List Text) :
    keep rooted kept (text "." :: parts) = keep rooted kept parts := by
  rw [keep.eq_def]
  exact if_pos (.inr rfl)

theorem splitAt_dot_slash (path : Text) :
    (text "./" ++ path).splitAt separator = text "." :: path.splitAt separator :=
  rfl

/-- A dot and a slash in front of a relative path say nothing. -/
theorem normalize_dot_slash (relative : IsRelative path) :
    normalize (text "./" ++ path) = normalize path := by
  have dotted : root (text "./" ++ path) = [] := rfl
  unfold normalize
  simp only [dotted, root_of_isRelative relative, splitAt_dot_slash, keep_dot]

end Path

/-- The compiled module whose code is loaded for an id. -/
def Hooks.artifact? (files : List Artifact) (name : Text) : Option Artifact :=
  (files.find? fun file => Path.normalize file.path = Path.normalize name) <|>
    files.find? fun file => name.contains file.path

/-- Some compiled module has the path of an id. -/
def Hooks.HasExact (files : List Artifact) (name : Text) : Prop :=
  ∃ file ∈ files, Path.normalize file.path = Path.normalize name

namespace Hooks

variable {files : List Artifact} {file : Artifact} {name other : Text}

theorem load_ofModules : (ofModules files).load name = (artifact? files name).map Artifact.code :=
  rfl

theorem mem_of_artifact? (h : artifact? files name = some file) : file ∈ files := by
  unfold artifact? at h
  cases hf : files.find? fun file => Path.normalize file.path = Path.normalize name with
  | none =>
      rw [hf] at h
      exact List.mem_of_find?_eq_some h
  | some found =>
      rw [hf] at h
      cases Option.some.inj h
      exact List.mem_of_find?_eq_some hf

theorem artifact?_of_hasExact (h : HasExact files name) :
    ∃ file, Path.normalize file.path = Path.normalize name ∧
      (files.find? fun file => Path.normalize file.path = Path.normalize name) = some file ∧
      artifact? files name = some file := by
  obtain ⟨file, mem, same⟩ := h
  cases hf : files.find? fun file => Path.normalize file.path = Path.normalize name with
  | none =>
      have hne := List.find?_eq_none.mp hf file mem
      exact absurd same (by simpa using hne)
  | some found =>
      refine ⟨found, by simpa using List.find?_some hf, rfl, ?_⟩
      rw [artifact?, hf]
      rfl

/-- Two ids with compiled modules of exactly their paths have the same one if the
paths are the same, and only then. -/
theorem artifact?_eq_iff (h : HasExact files name) (h' : HasExact files other) :
    artifact? files name = artifact? files other ↔
      Path.normalize name = Path.normalize other := by
  obtain ⟨file, same, exact', found⟩ := artifact?_of_hasExact h
  obtain ⟨file', same', exact'', found'⟩ := artifact?_of_hasExact h'
  constructor
  · intro he
    rw [found, found', Option.some.injEq] at he
    rw [← same, ← same', he]
  · intro he
    rw [he, exact''] at exact'
    rw [found, found', exact']

/-! ## Modules that are told apart by their paths -/

/-- No two compiled modules have one path. -/
def Distinct (files : List Artifact) : Prop :=
  (files.map fun file => Path.normalize file.path).Nodup

instance : DecidablePred Distinct :=
  fun files => inferInstanceAs (Decidable (files.map fun file => Path.normalize file.path).Nodup)

/-- The module whose path is the id's is the one that is found. -/
theorem load_of_exact (distinct : Distinct files) (mem : file ∈ files)
    (same : Path.normalize name = Path.normalize file.path) :
    (ofModules files).load name = some file.code := by
  obtain ⟨found, path, first, chosen⟩ := artifact?_of_hasExact ⟨file, mem, same.symm⟩
  have only : found = file :=
    List.inj_on_of_nodup_map distinct (List.mem_of_find?_eq_some first) mem (path.trans same)
  rw [load_ofModules, chosen, only]
  rfl

/-- Relative specifiers mean the module with the suffix for code. -/
theorem resolve_dot_slash (stem : Text) {importer : Text} (named : importer ≠ []) :
    (ofModules files).resolve (text "./" ++ stem) (some importer) =
      some (text "./" ++ (stem ++ text ".js")) := by
  obtain ⟨c, rest, rfl⟩ := List.exists_cons_of_ne_nil named
  rfl

/-- If the compiled modules have relative paths, no two of them the same, then each is found by its
path, with or without a dot and a slash in front, and by what an importer writes for it. Whatever
is exactly the path of a module means that module in every list that has it, in whatever order and
among whatever others. -/
theorem finds_own_code (distinct : Distinct files)
    (relative : ∀ file ∈ files, Path.IsRelative file.path) (mem : file ∈ files) :
    (ofModules files).load file.path = some file.code ∧
    (ofModules files).load (text "./" ++ file.path) = some file.code ∧
    (∀ stem importer, file.path = stem ++ text ".js" → importer ≠ [] →
      ∃ id, (ofModules files).resolve (text "./" ++ stem) (some importer) = some id ∧
        (ofModules files).load id = some file.code) ∧
    ∀ name, Path.normalize name = Path.normalize file.path →
      ∀ others, Distinct others → file ∈ others →
        (ofModules others).load name = some file.code := by
  have dotted := load_of_exact distinct mem (Path.normalize_dot_slash (relative file mem))
  refine ⟨load_of_exact distinct mem rfl, dotted, fun stem importer path named => ?_,
    fun name same others distinct mem => load_of_exact distinct mem same⟩
  refine ⟨_, resolve_dot_slash stem named, ?_⟩
  rw [← path]
  exact dotted

/-- A path that occurs in another one, and one that is not in its normal form. -/
def entwined : List Artifact :=
  [⟨text "a.js", text "a"⟩, ⟨text "lib//../data.js", text "data"⟩]

/-- The path that occurs in the id stands first, and the module is found by another spelling. -/
theorem finds_own_code_entwined :
    Distinct entwined ∧ (∀ file ∈ entwined, Path.IsRelative file.path) ∧
      (⟨text "lib//../data.js", text "data"⟩ : Artifact) ∈ entwined ∧
      (text "data.js").contains (text "a.js") ∧
      (∃ id, (ofModules entwined).resolve (text "./lib//../data") (some (text "input.js")) = some id ∧
        (ofModules entwined).load id = some (text "data")) ∧
      (ofModules entwined.reverse).load (text "data.js") = some (text "data") := by
  have distinct : Distinct entwined := by decide
  have relative : ∀ file ∈ entwined, Path.IsRelative file.path := by decide
  have mem : (⟨text "lib//../data.js", text "data"⟩ : Artifact) ∈ entwined := by decide
  obtain ⟨-, -, imported, elsewhere⟩ := finds_own_code distinct relative mem
  exact ⟨distinct, relative, mem, by decide,
    imported (text "lib//../data") (text "input.js") rfl (by decide),
    elsewhere (text "data.js") (by decide) entwined.reverse (by decide) (by decide)⟩

end Hooks

end Playground
