import Playground.Proofs.Link.Gathering

/-!
# Names that are declared for imports

In the place of an import from a module of the chunk its local names are declared,
but for those under which the exports are known in the chunk anyway. This is done for
each import alone, without regard to what was declared before. So where all imports
agree on what a name stands for, the name is declared as often as it is imported, or
never. No name is declared twice exactly if none that has to be declared is imported
twice in the chunk.

Imports from outside under one name are no such problem, because there a name that is
taken twice from one source is taken once in the chunk.
-/

namespace Playground.Link

/-- What an import from a module of the chunk binds. -/
def LinkedImport.inner (i : LinkedImport) : List Use :=
  match i.target with
  | none => []
  | some target => usesOf target i.default i.object i.named

/-- Members that agree where their keys agree are left out together. -/
theorem count_map_filter {α κ : Type} [BEq κ] [LawfulBEq κ] {p : α → Bool} {key : α → κ}
    {l : List α} {a : α} (agree : ∀ b ∈ l, key b = key a → p b = p a) :
    ((l.filter p).map key).count (key a) = if p a then (l.map key).count (key a) else 0 := by
  rw [List.count_eq_countP, List.countP_map, List.countP_filter, List.count_eq_countP,
    List.countP_map]
  split
  · next holds =>
      refine List.countP_congr fun b mem => ?_
      simp only [Function.comp_apply, Bool.and_eq_true, beq_iff_eq]
      exact and_iff_left_of_imp fun same => (agree b mem same).trans holds
  · next fails =>
      refine List.countP_eq_zero.mpr fun b mem => ?_
      simp only [Function.comp_apply, Bool.and_eq_true, beq_iff_eq]
      rintro ⟨same, holds⟩
      exact fails ((agree b mem same).symm.trans holds)

namespace Graph

variable {g : Graph} {i : LinkedImport} {u v : Use} {root target : Text}

/-! ## The declarations in the place of an import -/

/-- The value of a local name: the name of an export in the chunk, or the object that
holds all exports. -/
def valueOf (g : Graph) (u : Use) : Text :=
  match u.imported with
  | none => g.objectText u.origin
  | some name => g.localName u.origin name

/-- A local name has to be declared. An export may be known under that name anyway, but
an object never is. -/
def NeedsLine (g : Graph) (u : Use) : Prop :=
  u.imported ≠ none → g.valueOf u ≠ u.name

instance (g : Graph) (u : Use) : Decidable (g.NeedsLine u) :=
  inferInstanceAs (Decidable (u.imported ≠ none → g.valueOf u ≠ u.name))

/-- The local names that are declared in the place of an import. -/
def rebound (g : Graph) (i : LinkedImport) : List Use :=
  i.inner.filter g.NeedsLine

/-- The declaration of a local name. -/
def lineOf (g : Graph) (u : Use) : Text :=
  declare u.name (g.valueOf u)

theorem bindingLines_eq (g : Graph) (target imported name : Text) :
    g.bindingLines target imported name =
      ([⟨name, target, some imported⟩].filter g.NeedsLine).map g.lineOf := by
  unfold bindingLines
  split
  · next known => simp [NeedsLine, valueOf, known]
  · next unknown => simp [NeedsLine, valueOf, lineOf, unknown]

theorem flatten_bindingLines_eq (g : Graph) (target : Text) (named : List (Text × Text)) :
    (named.map fun pair => g.bindingLines target pair.1 pair.2).flatten =
      ((named.map fun pair => (⟨pair.2, target, some pair.1⟩ : Use)).filter g.NeedsLine).map
        g.lineOf := by
  induction named with
  | nil => rfl
  | cons pair rest ih =>
      rw [List.map_cons, List.flatten_cons, ih, bindingLines_eq, ← List.map_append,
        ← List.filter_append]
      rfl

theorem declarations_eq (found : i.target = some target) :
    g.declarations target i = (g.rebound i).map g.lineOf := by
  have object (name : Text) : g.NeedsLine ⟨name, target, none⟩ := fun none => absurd rfl none
  unfold declarations rebound LinkedImport.inner usesOf
  rw [found]
  simp only [List.filter_append, List.map_append]
  congr 1
  · cases i.default <;> cases i.object <;> simp [bindingLines_eq, object, lineOf, valueOf]
  · exact flatten_bindingLines_eq g target i.named

theorem importText_eq (g : Graph) (i : LinkedImport) :
    g.importText i = Text.join (text "\n") ((g.rebound i).map g.lineOf) := by
  unfold importText
  cases found : i.target with
  | none => simp [rebound, LinkedImport.inner, found, Text.join]
  | some target => rw [← declarations_eq found]

/-! ## The names of a chunk -/

/-- The imports of a chunk from modules of its own. -/
def uses (g : Graph) (root : Text) : List Use :=
  (g.shown root).flatMap fun m => m.imports.flatMap LinkedImport.inner

/-- The local names that are declared in a chunk, in their order. -/
def declaredNames (g : Graph) (root : Text) : List Text :=
  (g.shown root).flatMap fun m => m.imports.flatMap fun i => (g.rebound i).map Use.name

theorem declaredNames_eq (g : Graph) (root : Text) :
    g.declaredNames root = ((g.uses root).filter g.NeedsLine).map Use.name := by
  simp only [declaredNames, uses, rebound, List.filter_flatMap, List.map_flatMap]

/-- Two imports stand for the same. So it is when they are of the same export of the same
module, and also when two exports come to one name. -/
structure Same (g : Graph) (u v : Use) : Prop where
  whole : u.imported = none ↔ v.imported = none
  value : g.valueOf u = g.valueOf v

/-- Imports under one local name stand for the same. -/
def Agree (g : Graph) (uses : List Use) : Prop :=
  ∀ u ∈ uses, ∀ v ∈ uses, u.name = v.name → g.Same u v

theorem needsLine_iff (same : g.Same u v) (name : u.name = v.name) :
    g.NeedsLine u ↔ g.NeedsLine v := by
  unfold NeedsLine
  rw [same.value, name]
  exact imp_congr_left (not_congr same.whole)

/-- A name is declared as often as it is imported, or never. -/
theorem count_declaredNames (agree : g.Agree (g.uses root)) (mem : u ∈ g.uses root) :
    (g.declaredNames root).count u.name =
      if g.NeedsLine u then ((g.uses root).map Use.name).count u.name else 0 := by
  rw [declaredNames_eq, count_map_filter]
  · simp only [decide_eq_true_eq]
  · exact fun v hv name => decide_eq_decide.mpr (needsLine_iff (agree v hv u mem name) name)

theorem nodup_declaredNames_iff (agree : g.Agree (g.uses root)) :
    (g.declaredNames root).Nodup ↔
      ∀ u ∈ g.uses root, g.NeedsLine u → ((g.uses root).map Use.name).count u.name = 1 := by
  rw [List.nodup_iff_count_le_one]
  constructor
  · intro once u mem needs
    have count := count_declaredNames agree mem
    have pos : 0 < ((g.uses root).map Use.name).count u.name :=
      List.count_pos_iff.mpr (List.mem_map_of_mem mem)
    have le := once u.name
    rw [if_pos needs] at count
    omega
  · intro once name
    by_cases declared : name ∈ g.declaredNames root
    · rw [declaredNames_eq] at declared
      obtain ⟨u, hu, rfl⟩ := List.mem_map.mp declared
      obtain ⟨mem, needs⟩ := List.mem_filter.mp hu
      have needs := of_decide_eq_true needs
      rw [count_declaredNames agree mem, if_pos needs, once u mem needs]
    · rw [List.count_eq_zero.mpr declared]
      exact Nat.zero_le 1

/-- What a chunk declares for the imports of its modules from each other. -/
structure Declares (g : Graph) (root : Text) (code : Text) : Prop where
  shows : code = g.chunkText (chunkNames g.roots) root
  renders : ∀ m ∈ g.shown root,
    Edit.applyAll (g.edits (chunkNames g.roots) (m.id = root) m) m.source =
      .ok (g.bodyText (chunkNames g.roots) root m)
  /-- In the place of every import there are its declarations. -/
  replaces : ∀ m ∈ g.shown root, ∀ i ∈ m.imports,
    ⟨i.span, Text.join (text "\n") ((g.rebound i).map g.lineOf)⟩ ∈
      g.edits (chunkNames g.roots) (m.id = root) m
  /-- A name is declared as often as it is imported, or never. -/
  counts : g.Agree (g.uses root) → ∀ u ∈ g.uses root, (g.declaredNames root).count u.name =
    if g.NeedsLine u then ((g.uses root).map Use.name).count u.name else 0
  /-- No name is declared twice exactly if none that has to be declared is imported twice. -/
  once : g.Agree (g.uses root) → ((g.declaredNames root).Nodup ↔
    ∀ u ∈ g.uses root, g.NeedsLine u → ((g.uses root).map Use.name).count u.name = 1)

/-- Every chunk declares the local names of its imports import by import. -/
theorem declares_imports {format : Text} {made : List Chunk × List Text} {chunk : Chunk}
    (generated : g.generate format = .ok made) (mem : chunk ∈ made.1) :
    ∃ root ∈ g.roots, g.Declares root chunk.code := by
  obtain ⟨-, renders, rfl⟩ := generate_eq_ok_iff.mp generated
  obtain ⟨root, hroot, code⟩ := exists_root_of_mem_chunks renders mem
  refine ⟨root, hroot, ?_⟩
  constructor
  case shows => exact code
  case renders => exact renders root hroot
  case replaces =>
    intro m _ i hi
    rw [← importText_eq]
    exact mem_edits_iff.mpr (.inl ⟨i, hi, rfl⟩)
  case counts => exact fun agree u => count_declaredNames agree
  case once => exact nodup_declaredNames_iff

instance (g : Graph) (u v : Use) : Decidable (g.Same u v) :=
  decidable_of_iff ((u.imported = none ↔ v.imported = none) ∧ g.valueOf u = g.valueOf v)
    ⟨fun h => ⟨h.1, h.2⟩, fun h => ⟨h.whole, h.value⟩⟩

instance (g : Graph) (uses : List Use) : Decidable (g.Agree uses) :=
  inferInstanceAs (Decidable (∀ u ∈ uses, ∀ v ∈ uses, u.name = v.name → g.Same u v))

/-- Modules that import one export, twice under its own name and once under another one. -/
def ownName : List Artifact :=
  [⟨text "input.js", text ("import \x7b x \x7d from \"./c\";\nimport \x7b x as z \x7d from \"./c\";\n" ++
      "import \"./a\";\nexport const b = x + z;\n")⟩,
    ⟨text "a.js", text ("import \x7b x \x7d from \"./c\";\nimport * as n from \"./c\";\n" ++
      "export const a = x;\n")⟩,
    ⟨text "c.js", text "export const x = 1;\n"⟩]

theorem declares_ownName : ∃ g chunk root, ofModules ownName (text "input.js") = .ok g ∧
    g.generate (text "es") = .ok ([chunk], []) ∧ root ∈ g.roots ∧ g.Agree (g.uses root) ∧
    (g.uses root).map Use.name = [text "x", text "n", text "x", text "z"] ∧
    g.declaredNames root = [text "n", text "z"] ∧ (g.declaredNames root).Nodup := by
  have run : (ofModules ownName (text "input.js")).toOption.map (fun g : Graph =>
      ((g.generate (text "es")).toOption.map fun made => (made.1.length, made.2),
        decide (∀ root ∈ g.roots, g.Agree (g.uses root) ∧
          (g.uses root).map Use.name = [text "x", text "n", text "x", text "z"] ∧
          g.declaredNames root = [text "n", text "z"] ∧
          ∀ u ∈ g.uses root, g.NeedsLine u → ((g.uses root).map Use.name).count u.name = 1))) =
      some (some (1, []), true) := by
    decide +kernel
  obtain ⟨g, built, run⟩ := Except.map_toOption_eq_some_iff.mp run
  obtain ⟨made, shown⟩ := Prod.mk.inj run
  obtain ⟨⟨chunks, warnings⟩, generated, made⟩ := Except.map_toOption_eq_some_iff.mp made
  obtain ⟨one, rfl⟩ := Prod.mk.inj made
  obtain ⟨chunk, rfl⟩ := List.length_eq_one_iff.mp one
  obtain ⟨root, hroot, declares⟩ := declares_imports generated (List.mem_singleton_self chunk)
  obtain ⟨agree, names, declared, once⟩ := of_decide_eq_true shown root hroot
  exact ⟨g, chunk, root, built, generated, hroot, agree, names, declared,
    (declares.once agree).mpr once⟩

/-- The names that a module declares in export statements, if it has no statements but
those and imports. -/
def ownNames? (m : Module) : Option (List Text) :=
  ((Source.outline? m.source.toCharsD).bind fun o => o.items.mapM fun item =>
    match item with
    | .importing _ => some []
    | .exporting _ (.declaration _ _ d) => some d.binds
    | _ => none).map List.flatten

/-- Two modules that import one export under the same other name. -/
def otherName : List Artifact :=
  [⟨text "input.js",
      text "import \x7b x as y \x7d from \"./c\";\nimport \"./a\";\nexport const b = y;\n"⟩,
    ⟨text "a.js", text "import \x7b x as y \x7d from \"./c\";\nexport const a = y;\n"⟩,
    ⟨text "c.js", text "export const x = 1;\n"⟩]

/-- No names of the modules clash and both imports are of the same export, but its other
name is declared twice. -/
theorem declares_otherName_twice : ∃ g chunk, ofModules otherName (text "input.js") = .ok g ∧
    g.generate (text "es") = .ok ([chunk], []) ∧
    chunk.code = text ("const x = 1;\n\nconst y = x;\nconst a = y;\n\n" ++
      "const y = x;\n\nexport const b = y;\n") ∧
    (g.shown g.entry).map ownNames? = [some [text "x"], some [text "a"], some [text "b"]] ∧
    g.uses g.entry = [⟨text "y", text "./c.js", some (text "x")⟩,
      ⟨text "y", text "./c.js", some (text "x")⟩] ∧
    g.declaredNames g.entry = [text "y", text "y"] := by
  have run : (ofModules otherName (text "input.js")).toOption.map (fun g : Graph =>
      ((g.generate (text "es")).toOption,
        decide ((g.shown g.entry).map ownNames? = [some [text "x"], some [text "a"], some [text "b"]]),
        decide (g.uses g.entry = [⟨text "y", text "./c.js", some (text "x")⟩,
          ⟨text "y", text "./c.js", some (text "x")⟩]),
        decide (g.declaredNames g.entry = [text "y", text "y"]))) =
      some (some ([⟨text "input.js", text ("const x = 1;\n\nconst y = x;\nconst a = y;\n\n" ++
          "const y = x;\n\nexport const b = y;\n"), true, false⟩], []), true, true, true) := by
    decide +kernel
  obtain ⟨g, built, run⟩ := Except.map_toOption_eq_some_iff.mp run
  obtain ⟨made, run⟩ := Prod.mk.inj run
  obtain ⟨own, run⟩ := Prod.mk.inj run
  obtain ⟨uses, declared⟩ := Prod.mk.inj run
  exact ⟨g, _, built, Except.toOption_eq_some_iff.mp made, rfl, of_decide_eq_true own,
    of_decide_eq_true uses, of_decide_eq_true declared⟩

end Graph

end Playground.Link
