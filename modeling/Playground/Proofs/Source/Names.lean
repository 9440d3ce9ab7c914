import Playground.Proofs.Source.Rules
import Playground.Proofs.Text.Utf8

/-!
# Names are well-formed text

Whatever an outline names was cut out of the source, and the source consists of
characters, so no name has a surrogate in it. Of declarations only the names
under which other modules know them are looked at. Those that are bound by taking
a value apart are not among them, and so expressions need not be opened.
-/

namespace Playground.Source

open Reader

namespace Reader

variable {α β : Type} {p q : Reader α} {k : α → Reader β} {P : α → Prop} {Q : β → Prop} {a : α}

/-- Where a reader succeeds, its result has a property. -/
structure Yields (p : Reader α) (P : α → Prop) : Prop where
  holds : ∀ {c d : Cursor} {a : α}, p c = some (a, d) → P a

theorem Yields.pure (h : P a) : Yields (pure a) P where
  holds read := by
    obtain ⟨rfl, -⟩ := pure_eq_some_iff.mp read
    exact h

theorem Yields.failure : Yields (failure : Reader α) P :=
  ⟨fun read => absurd read failure_ne_some⟩

theorem Yields.bind (h : Yields p P) (next : ∀ a, P a → Yields (k a) Q) :
    Yields (p >>= k) Q where
  holds read := by
    obtain ⟨a, e, first, read⟩ := bind_eq_some_iff.mp read
    exact (next a (h.holds first)).holds read

/-- What the first reader tells does not matter. -/
theorem Yields.skip (next : ∀ a, Yields (k a) Q) : Yields (p >>= k) Q where
  holds read := by
    obtain ⟨a, e, first, read⟩ := bind_eq_some_iff.mp read
    exact (next a).holds read

theorem Yields.orElse (h : Yields p P) (h' : Yields q P) : Yields (p <|> q) P where
  holds read := by
    rcases orElse_eq_some read with read | ⟨-, read⟩
    · exact h.holds read
    · exact h'.holds read

theorem Yields.ite {C : Prop} [Decidable C] (h : Yields p P) (h' : Yields q P) :
    Yields (if C then p else q) P := by
  split
  · exact h
  · exact h'

theorem Yields.optional (h : Yields p P) :
    Yields (optional p) fun found => ∀ a ∈ found, P a where
  holds read := by
    rcases optional_eq_some read with ⟨a, rfl, own⟩ | ⟨rfl, -⟩
    · rintro _ ⟨⟩
      exact h.holds own
    · rintro _ ⟨⟩

theorem Yields.many (h : Yields p P) : Yields (many p) fun found => ∀ a ∈ found, P a where
  holds read := by
    have chain := chain_of_many read
    clear read
    induction chain with
    | nil => exact List.forall_mem_nil _
    | cons first _ ih => exact List.forall_mem_cons.mpr ⟨h.holds first, ih⟩

theorem Yields.commaList (h : Yields p P) :
    Yields (commaList p) fun found => ∀ a ∈ found, P a := by
  refine h.bind fun first hfirst => ?_
  refine (Yields.many (.skip fun _ => h)).bind fun more hmore => ?_
  exact .pure (List.forall_mem_cons.mpr ⟨hfirst, hmore⟩)

theorem Yields.looseList (h : Yields p P) :
    Yields (looseList p) fun found => ∀ a ∈ found, P a := by
  refine h.optional.bind fun first hfirst => ?_
  cases first with
  | none => exact .pure (List.forall_mem_nil _)
  | some first =>
      refine (Yields.many (.skip fun _ => h)).bind fun more hmore => ?_
      exact .skip fun _ => .pure (List.forall_mem_cons.mpr ⟨hfirst first rfl, hmore⟩)

end Reader

/-! ## What is well-formed -/

/-- Two names without surrogates. -/
def WholePair (pair : Text × Text) : Prop :=
  pair.1.Whole ∧ pair.2.Whole

/-- An import that names nothing with surrogates. -/
structure Import.Whole (i : Import) : Prop where
  default : ∀ name ∈ i.default, name.Whole
  object : ∀ name ∈ i.object, name.Whole
  named : ∀ pair ∈ i.named, WholePair pair

/-- A re-export that names nothing with surrogates. -/
def ReExported.Whole : ReExported → Prop
  | .all => True
  | .object exported => exported.Whole
  | .named pairs => ∀ pair ∈ pairs, WholePair pair

/-- An export statement that names nothing with surrogates. -/
def Export.Whole : Export → Prop
  | .declaration _ _ d => ∀ name ∈ d.names, name.Whole
  | .clause pairs => ∀ pair ∈ pairs, WholePair pair
  | .reExport _ what => what.Whole
  | .value _ | .other => True

/-- A statement that names nothing with surrogates. -/
def Item.Whole : Item → Prop
  | .importing i => i.Whole
  | .exporting _ e => e.Whole
  | .other => True

/-! ## Names -/

variable {g : Grammar}

theorem yields_name : Yields name Text.Whole :=
  .skip fun cs => .pure (.ofChars cs)

theorem yields_string : Yields string fun site => site.source.Whole where
  holds read := by
    obtain ⟨n, -, -, rfl⟩ := string_eq_some_iff.mp read
    exact .ofChars _

theorem yields_className : Yields className Text.Whole :=
  .skip fun cs => .skip fun _ => .pure (.ofChars cs)

theorem yields_sliceOf {α : Type} {p : Reader α} : Yields (sliceOf p) Text.Whole :=
  .skip fun _ => .skip fun _ => .skip fun _ => .skip fun _ => .pure (.ofChars _)

theorem yields_exportName : Yields exportName Text.Whole :=
  .orElse yields_name (yields_string.bind fun _ h => .pure h)

theorem yields_givenName {p : Reader Text} (h : Yields p Text.Whole) :
    Yields (givenName p) fun given => ∀ name ∈ given, name.Whole :=
  .optional (.skip fun _ => h)

/-- The other name of something, or its own. -/
theorem whole_getD {given : Option Text} {name : Text} (h : ∀ name ∈ given, name.Whole)
    (own : name.Whole) : (given.getD name).Whole := by
  cases given with
  | none => exact own
  | some given => exact h given rfl

theorem yields_importedName : Yields importedName WholePair := by
  refine .skip fun _ => yields_exportName.bind fun imported own => ?_
  refine (yields_givenName yields_name).bind fun given h => ?_
  exact .skip fun _ => .pure ⟨own, whole_getD h own⟩

theorem yields_importSpecifier : Yields importSpecifier WholePair :=
  .skip fun _ => .skip fun _ => .ite (.skip fun _ => yields_importedName) yields_importedName

theorem yields_exportSpecifier : Yields exportSpecifier WholePair := by
  have named : Yields (do
      let exported ← exportName
      return (exported, (← givenName exportName).getD exported)) WholePair := by
    refine yields_exportName.bind fun exported own => ?_
    exact (yields_givenName yields_exportName).bind fun given h => .pure ⟨own, whole_getD h own⟩
  exact .skip fun _ => .ite (.skip fun _ => named) named

theorem yields_specifiers {p : Reader (Text × Text)} (h : Yields p WholePair) :
    Yields (specifiers p) fun found => ∀ pair ∈ found, WholePair pair :=
  .skip fun _ => h.looseList.bind fun _ found => .skip fun _ => .pure found

/-! ## Imports -/

theorem yields_importClause : Yields importClause Import.Whole := by
  have several : Yields ((do return { span := ⟨0, 0⟩, source := [], object := some (← wholeModule) }) <|>
      (do return { span := ⟨0, 0⟩, source := [], named := ← specifiers importSpecifier }) :
        Reader Import) Import.Whole := by
    refine .orElse ?_ ?_
    · refine Yields.bind (P := Text.Whole) (.skip fun _ => .skip fun _ => yields_name) ?_
      exact fun name h => .pure ⟨nofun, by rintro _ ⟨⟩; exact h, List.forall_mem_nil _⟩
    · exact (yields_specifiers yields_importSpecifier).bind fun named h =>
        .pure ⟨nofun, nofun, h⟩
  refine .orElse several (yields_name.bind fun n hn => ?_)
  refine (Yields.optional (.skip fun _ => several)).bind fun more hmore => .pure ?_
  cases more with
  | none => exact ⟨by rintro _ ⟨⟩; exact hn, nofun, List.forall_mem_nil _⟩
  | some more =>
      obtain ⟨-, object, named⟩ := hmore more rfl
      exact ⟨by rintro _ ⟨⟩; exact hn, object, named⟩

theorem yields_importBody : Yields importBody fun found => ∀ i ∈ found, i.Whole := by
  have clause : Yields (do
      let clause ← importClause
      return some { clause with source := ← fromSource } : Reader (Option Import))
      fun found => ∀ i ∈ found, i.Whole := by
    refine yields_importClause.bind fun i h => .skip fun source => .pure ?_
    rintro _ ⟨⟩
    exact ⟨h.default, h.object, h.named⟩
  have sourceOnly : Yields (do
      return some { span := ⟨0, 0⟩, source := (← string).source } : Reader (Option Import))
      fun found => ∀ i ∈ found, i.Whole := by
    refine .skip fun site => .pure ?_
    rintro _ ⟨⟩
    exact ⟨nofun, nofun, List.forall_mem_nil _⟩
  have plain := sourceOnly.orElse clause
  have equals : Yields (do importEquals; return none : Reader (Option Import))
      fun found => ∀ i ∈ found, i.Whole := .skip fun _ => .pure nofun
  refine .skip fun _ => .ite clause (.skip fun _ => .ite ?_ ?_)
  · exact .orElse (.skip fun _ => plain) equals
  · exact .orElse plain equals

theorem yields_importStatement :
    Yields (importStatement g) fun found => ∀ i ∈ found, i.Whole := by
  refine .skip fun start => .skip fun _ => yields_importBody.bind fun found h => ?_
  have final : Yields (do
      semicolon .plain
      let stop := (← get).pos
      return found.map fun i => { i with span := ⟨start, stop⟩ } : Reader (Option Import))
      fun found => ∀ i ∈ found, i.Whole := by
    refine .skip fun _ => .skip fun c => .pure ?_
    intro i mem
    obtain ⟨j, hj, rfl⟩ := Option.map_eq_some_iff.mp mem
    obtain ⟨default, object, named⟩ := h j hj
    exact ⟨default, object, named⟩
  exact .skip fun _ => .ite final (.skip fun _ => final)

/-! ## Declarations -/

/-- A declaration that names nothing with surrogates. -/
def Declaration.Whole (d : Declaration) : Prop :=
  ∀ name ∈ d.names, name.Whole

/-- A pattern that is not a name with surrogates. -/
def Pattern.Whole (p : Pattern) : Prop :=
  ∀ name ∈ Declaration.plainName? p, name.Whole

theorem Declaration.whole_named {name : Text} (h : name.Whole) :
    (Declaration.named name).Whole :=
  List.forall_mem_singleton.mpr h

theorem Declaration.whole_nameless : Declaration.nameless.Whole :=
  List.forall_mem_nil _

/-- A shape that stands for no plain name, if it is a pattern. -/
def Shape.Nested (s : Shape) : Prop :=
  ∀ p ∈ s.target, Declaration.plainName? p = none

theorem Shape.nested_of_parts {s : Shape} {parts : Option (List Pattern)}
    (h : s.target = parts.map Pattern.parts) : s.Nested := by
  intro p mem
  obtain ⟨ps, -, rfl⟩ := Option.map_eq_some_iff.mp (h ▸ mem)
  rfl

theorem Shape.Nested.whole {s : Shape} {p : Pattern} (h : s.Nested) (target : s.target = some p) :
    p.Whole := by
  rw [Pattern.Whole, h p target]
  exact nofun

theorem yields_objectShape : Yields (objectShape g) Shape.Nested :=
  .skip fun _ => .skip fun _ => .skip fun _ => .pure (Shape.nested_of_parts rfl)

theorem yields_arrayShape : Yields (arrayShape g) Shape.Nested :=
  .skip fun _ => .skip fun _ => .skip fun _ => .pure (Shape.nested_of_parts rfl)

theorem yields_bindingPattern : Yields (bindingPattern g) Pattern.Whole := by
  refine .skip fun next => ?_
  split
  · refine yields_objectShape.bind fun s h => ?_
    split
    · next target => exact .pure (h.whole target)
    · exact .failure
  · refine yields_arrayShape.bind fun s h => ?_
    split
    · next target => exact .pure (h.whole target)
    · exact .failure
  · refine yields_name.bind fun n h => .pure ?_
    rintro _ ⟨⟩
    exact h

theorem yields_declarators {closed : Bool} :
    Yields (declarators g closed) fun found => ∀ p ∈ found.1, p.Whole := by
  have one : Yields (declarator g closed) fun found => found.1.Whole :=
    yields_bindingPattern.bind fun p h => .skip fun _ => .skip fun given => .pure h
  refine .skip fun _ => one.commaList.bind fun found h => .pure ?_
  exact List.forall_mem_map.mpr h

theorem yields_variableDeclaration : Yields (variableDeclaration g) Declaration.Whole := by
  refine yields_declarators.bind fun found h => .skip fun _ => .pure ?_
  intro name mem
  obtain ⟨p, hp, hname⟩ := List.mem_filterMap.mp mem
  exact h p hp name hname

theorem yields_functionDeclaration : Yields (functionDeclaration g) Declaration.Whole := by
  refine .skip fun _ => .skip fun _ => .skip fun _ => yields_name.bind fun n h => ?_
  have named : Yields (pure (Declaration.named n)) Declaration.Whole :=
    .pure (Declaration.whole_named h)
  exact .skip fun _ => .skip fun _ => .ite (.skip fun _ => named) (.skip fun _ => named)

theorem yields_classDeclaration : Yields (classDeclaration g) Declaration.Whole := by
  refine .skip fun _ => .skip fun _ => .skip fun _ => yields_className.bind fun n h => ?_
  exact .skip fun _ => .pure (Declaration.whole_named h)

theorem yields_enumDeclaration : Yields (enumDeclaration g) Declaration.Whole := by
  refine .skip fun _ => .skip fun _ => yields_name.bind fun n h => ?_
  exact .skip fun _ => .skip fun _ => .skip fun _ => .pure (Declaration.whole_named h)

theorem yields_interfaceDeclaration : Yields (interfaceDeclaration g) Declaration.Whole := by
  refine .skip fun _ => yields_name.bind fun n h => ?_
  exact .skip fun _ => .skip fun _ => .skip fun _ => .pure (Declaration.whole_named h)

theorem yields_typeDeclaration : Yields (typeDeclaration g) Declaration.Whole := by
  refine .skip fun _ => yields_name.bind fun n h => .skip fun _ => .skip fun _ => ?_
  exact .skip fun _ => .skip fun _ => .pure (Declaration.whole_named h)

theorem yields_namespaceDeclaration : Yields (namespaceDeclaration g) Declaration.Whole := by
  refine .skip fun _ => yields_sliceOf.bind fun n h => ?_
  exact .skip fun _ => .pure (Declaration.whole_named h)

theorem yields_declarationBody : Yields (declarationBody g) Declaration.Whole := by
  have ambient : Yields (ambientDeclaration g) Declaration.Whole :=
    .skip fun _ => .skip fun _ => .pure Declaration.whole_nameless
  have other : Yields aliasDeclaration Declaration.Whole :=
    .skip fun _ => .skip fun _ => .skip fun _ => .skip fun _ => .skip fun _ =>
      .pure Declaration.whole_nameless
  refine .skip fun w => ?_
  refine .ite yields_functionDeclaration (.ite yields_classDeclaration (.ite ?_ (.ite ?_ ?_)))
  · exact .orElse yields_enumDeclaration yields_variableDeclaration
  · exact yields_variableDeclaration
  · refine .ite yields_enumDeclaration (.ite yields_interfaceDeclaration ?_)
    refine .ite yields_typeDeclaration (.ite yields_namespaceDeclaration ?_)
    exact .ite ambient (.ite other .failure)

theorem yields_declaration (depth : Nat) :
    Yields (grammar depth).declaration Declaration.Whole := by
  cases depth with
  | zero => exact .failure
  | succ depth => exact yields_declarationBody

/-! ## Exports -/

theorem yields_exportClause : Yields exportClause Export.Whole := by
  refine (yields_specifiers yields_exportSpecifier).bind fun pairs h => ?_
  refine .skip fun _ => .ite (.skip fun _ => .pure h) (.skip fun source => .skip fun _ => .pure ?_)
  cases source <;> exact h

section Exports

variable (declares : Yields g.declaration Declaration.Whole)

include declares

theorem yields_exportRest : Yields (exportRest g) Export.Whole := by
  refine .skip fun next => ?_
  split
  · refine .skip fun _ => ?_
    refine Yields.bind (Yields.optional (.skip fun _ => yields_exportName)) fun n h => ?_
    refine .skip fun source => .skip fun _ => .pure ?_
    cases n with
    | none => trivial
    | some n => exact h n rfl
  · exact yields_exportClause
  · exact .skip fun _ => .skip fun _ => .skip fun _ => .pure trivial
  · refine .skip fun _ => .ite ?_ (.skip fun _ => .ite ?_ (.skip fun _ => .ite ?_ ?_))
    · refine .skip fun _ => .skip fun start => ?_
      refine Yields.bind (Yields.optional (.skip fun _ => .skip fun _ => .skip fun _ => declares))
        fun declared h => ?_
      cases declared with
      | some d => exact .pure (h d rfl)
      | none => exact .skip fun _ => .skip fun _ => .pure trivial
    · exact .skip fun _ => yields_exportClause
    · exact .skip fun _ => .skip fun _ => .skip fun _ => .skip fun _ => .pure trivial
    · exact .skip fun start => declares.bind fun d h => .pure h

theorem yields_exportStatement : Yields (exportStatement g) Export.Whole :=
  .skip fun _ => .skip fun _ => (yields_exportRest declares).bind fun _ h =>
    .skip fun _ => .pure h

theorem yields_exportOrValue :
    Yields (exportOrValue g) fun found => ∀ e ∈ found, e.Whole := by
  refine .skip fun _ => .ite (.skip fun _ => .pure nofun) ?_
  refine (yields_exportStatement declares).bind fun e h => .pure ?_
  rintro _ ⟨⟩
  exact h

theorem yields_item : Yields (item g) Item.Whole := by
  have spanned (start : Nat) (e : Export) (h : e.Whole) : Yields (do
      return .exporting ⟨start, (← get).pos⟩ e : Reader Item) Item.Whole :=
    .skip fun _ => .pure h
  have other : Yields (do g.statement; return .other : Reader Item) Item.Whole :=
    .skip fun _ => .pure trivial
  refine .skip fun start => .skip fun _ => .ite ?_ (.skip fun _ => .ite ?_ (.skip fun _ => ?_))
  · refine yields_importStatement.bind fun found h => ?_
    cases found with
    | none => exact .pure trivial
    | some i => exact .pure (h i rfl)
  · refine (yields_exportOrValue declares).bind fun found h => ?_
    cases found with
    | none => exact .pure trivial
    | some e => exact spanned start e (h e rfl)
  · exact .ite (.orElse ((yields_exportStatement declares).bind (spanned start)) other) other

end Exports

/-- No statement of an outline names anything with surrogates. -/
theorem whole_of_outline {source : List Char} {o : Outline} (h : outline? source = some o) :
    ∀ item ∈ o.items, item.Whole := by
  unfold outline? at h
  simp only [] at h
  split at h
  · next items c read =>
      cases h
      obtain ⟨_, _, -, read⟩ := bind_eq_some_iff.mp read
      obtain ⟨found, _, many, read⟩ := bind_eq_some_iff.mp read
      obtain ⟨_, _, -, read⟩ := bind_eq_some_iff.mp read
      obtain ⟨_, _, -, read⟩ := bind_eq_some_iff.mp read
      obtain ⟨_, _, -, read⟩ := bind_eq_some_iff.mp read
      obtain ⟨rfl, -⟩ := pure_eq_some_iff.mp read
      exact (yields_item (yields_declaration _)).many.holds many
  · cases h

end Playground.Source
