import Playground.Proofs.Link.Lines
import Playground.Proofs.Link.Splitting

/-!
# Chunks are well formed

A chunk is put together from what is left of its modules' sources and from lines
that the linker writes. The lines stand alone if all names are plain ones. So a
chunk is well formed if what is left of each source stands alone as well, between
the statements that are replaced as a whole.

Names need not be plain, though: what a module exports may be named by a string,
and the linker writes it down again as if it were a word.
-/

namespace Playground.Link

open Source Text

/-! ## Names of modules -/

/-- What an exported name stands for has a plain name, if it is in the module itself. -/
def Binding.Plain : Binding → Prop
  | .here name => name.Spelled IsName
  | .there _ _ => True

/-- The object that a re-export makes of a module has a plain name. -/
def Taken.Plain : Taken → Prop
  | .object _ name => name.Spelled IsName
  | .all | .named _ => True

/-- An import gives plain names to what it takes. What it takes from outside has plain
names there as well. -/
structure LinkedImport.Plain (i : LinkedImport) : Prop where
  default : ∀ name ∈ i.default, name.Spelled IsName
  object : ∀ name ∈ i.object, name.Spelled IsName
  named : ∀ pair ∈ i.named, pair.2.Spelled IsName
  outside : i.target = none → ∀ pair ∈ i.named, pair.1.Spelled IsPlain

/-- The names in a module that the linker writes down are plain. -/
structure Module.Plain (m : Module) : Prop where
  imports : ∀ i ∈ m.imports, i.Plain
  exports : ∀ entry ∈ m.exports, entry.2.Plain
  reExports : ∀ r ∈ m.reExports, r.taken.Plain

instance (b : Binding) : Decidable b.Plain :=
  match b with
  | .here name => inferInstanceAs (Decidable (name.Spelled IsName))
  | .there _ _ => .isTrue trivial

instance (taken : Taken) : Decidable taken.Plain :=
  match taken with
  | .object _ name => inferInstanceAs (Decidable (name.Spelled IsName))
  | .all | .named _ => .isTrue trivial

instance (i : LinkedImport) : Decidable i.Plain :=
  decidable_of_iff ((∀ name ∈ i.default, name.Spelled IsName) ∧
      (∀ name ∈ i.object, name.Spelled IsName) ∧ (∀ pair ∈ i.named, pair.2.Spelled IsName) ∧
      (i.target = none → ∀ pair ∈ i.named, pair.1.Spelled IsPlain))
    ⟨fun h => ⟨h.1, h.2.1, h.2.2.1, h.2.2.2⟩,
      fun h => ⟨h.default, h.object, h.named, h.outside⟩⟩

instance (m : Module) : Decidable m.Plain :=
  decidable_of_iff ((∀ i ∈ m.imports, i.Plain) ∧ (∀ entry ∈ m.exports, entry.2.Plain) ∧
      ∀ r ∈ m.reExports, r.taken.Plain)
    ⟨fun h => ⟨h.1, h.2.1, h.2.2⟩, fun h => ⟨h.imports, h.exports, h.reExports⟩⟩

namespace Externals

variable {externals : Externals} {i : LinkedImport}

theorem plain_extended {e : External} (h : e.Plain) (plain : i.Plain) (outside : i.target = none) :
    (extended e i).Plain where
  default := by
    unfold extended
    cases he : e.default with
    | none => exact plain.default
    | some => exact fun name mem => h.default name (he ▸ mem)
  objects := by
    unfold extended
    cases hi : i.object with
    | none => exact h.objects
    | some o =>
        intro name mem
        rcases Ordered.mem_add_iff.mp mem with mem | rfl
        · exact h.objects name mem
        · exact plain.object name hi
  named pair mem := by
    rcases Ordered.mem_foldl_add_iff.mp mem with mem | mem
    · exact h.named pair mem
    · exact ⟨plain.outside outside pair mem, plain.named pair mem⟩

theorem plain_gather (h : ∀ entry ∈ externals, entry.2.Plain) (plain : i.Plain) :
    ∀ entry ∈ externals.gather i, entry.2.Plain := by
  unfold Externals.gather
  cases outside : i.target with
  | some => exact h
  | none =>
      have before : ((externals.lookup i.source).getD {}).Plain := by
        cases found : externals.lookup i.source with
        | none => exact ⟨nofun, List.forall_mem_nil _, List.forall_mem_nil _⟩
        | some e => exact h (i.source, e) (Graph.mem_of_lookup found)
      intro entry mem
      rcases Ordered.mem_of_mem_put mem with mem | rfl
      · exact h entry mem
      · exact plain_extended before plain outside

end Externals

/-! ## What is left of a source -/

namespace Edit

variable {whole es : List Edit} {source : Text} {pos : Nat}

/-- What is left of a source from a place on, between stretches that are replaced as a
whole. The other ones are replaced in it, and a line feed is put at the end. -/
def runs (whole : List Edit) (source : Text) : Text → Nat → List Edit → List Text
  | run, pos, [] => [run ++ source.drop pos ++ text "\n"]
  | run, pos, e :: rest =>
    let front := run ++ source.slice pos e.span.start
    if e ∈ whole then front :: runs whole source [] e.span.stop rest
    else runs whole source (front ++ e.replacement) e.span.stop rest

theorem stands_weave (run : Text) (replaced : ∀ e ∈ whole, e.replacement.Stands)
    (kept : ∀ t ∈ runs whole source run pos es, t.Stands) :
    (run ++ weave source pos es ++ text "\n").Stands := by
  induction es generalizing run pos with
  | nil => exact kept _ (List.mem_singleton_self _)
  | cons e rest ih =>
      rw [runs] at kept
      rw [weave]
      by_cases h : e ∈ whole
      · rw [if_pos h] at kept
        obtain ⟨first, later⟩ := List.forall_mem_cons.mp kept
        have all := (first.append (replaced e h)).append (ih [] later)
        simpa only [List.append_assoc, List.nil_append] using all
      · rw [if_neg h] at kept
        simpa only [List.append_assoc] using ih _ kept

end Edit

namespace Graph

variable {hooks : Hooks} {g : Graph} {m : Module} {budget : Nat} {input format target name : Text}

/-- The names that the linker writes down are plain, and what a root exports again is
named by words. -/
structure Plain (g : Graph) : Prop where
  modules : ∀ m ∈ g.modules, m.Plain
  exported : ∀ m ∈ g.modules, m.id ∈ g.roots → ∀ r ∈ m.reExports, ∀ target ∈ r.target,
    ∀ pair ∈ g.clauseOf target r.taken, pair.2.Spelled IsWord

instance (g : Graph) : Decidable g.Plain :=
  decidable_of_iff ((∀ m ∈ g.modules, m.Plain) ∧ ∀ m ∈ g.modules, ∀ root ∈ g.roots, m.id = root →
      ∀ r ∈ m.reExports, ∀ target ∈ r.target, ∀ pair ∈ g.clauseOf target r.taken,
        pair.2.Spelled IsWord)
    ⟨fun h => ⟨h.1, fun m mem root => h.2 m mem m.id root rfl⟩,
      fun h => ⟨h.modules, fun m mem _ root same => h.exported m mem (same ▸ root)⟩⟩

theorem plain_externals (plain : ∀ m ∈ g.shown target, m.Plain) :
    ∀ entry ∈ g.externals target, entry.2.Plain := by
  refine List.foldlRecOn (motive := fun externals : Externals => ∀ entry ∈ externals, entry.2.Plain)
    _ _ (List.forall_mem_nil _) fun externals before i mem => ?_
  obtain ⟨m, shown, mem⟩ := List.mem_flatMap.mp mem
  exact Externals.plain_gather before ((plain m shown).imports i mem)

theorem WellFormed.isLocal_localName (w : g.WellFormed hooks) (plain : g.Plain)
    (target name : Text) : (g.localName target name).Spelled IsLocal := by
  unfold localName
  cases found : g.resolveExport target name with
  | none => exact ⟨"undefined".toList, .inr rfl, rfl⟩
  | some result =>
      obtain ⟨k, hk, -, exported, there⟩ := w.of_resolveFrom found
      exact ((plain.modules k hk).exports _ there).mono fun _ => .inl

/-! ## Lines -/

theorem WellFormed.stands_of_mem_bindingLines (w : g.WellFormed hooks)
    (plain : g.Plain) {imported line : Text} (hn : name.Spelled IsName)
    (mem : line ∈ g.bindingLines target imported name) : line.Stands := by
  unfold bindingLines at mem
  split at mem
  · cases mem
  · rw [List.mem_singleton.mp mem]
    exact stands_declare_local hn (w.isLocal_localName plain _ _)

theorem WellFormed.stands_object (w : g.WellFormed hooks) (plain : g.Plain)
    (hn : name.Spelled IsName) : (declare name (g.objectText target)).Stands := by
  refine stands_declare hn fun depth => ?_
  rw [toCharsD_objectText]
  refine readsValue_frozen (List.forall_mem_map.mpr fun n _ => ?_)
  exact (w.isLocal_localName plain target n).chars.isValue

theorem WellFormed.stands_importText (w : g.WellFormed hooks) (plain : g.Plain)
    (mem : m ∈ g.modules) {i : LinkedImport} (hi : i ∈ m.imports) : (g.importText i).Stands := by
  obtain ⟨default, object, named, -⟩ := (plain.modules m mem).imports i hi
  unfold importText
  cases i.target with
  | none => exact Feeds.stands (List.forall_mem_nil _)
  | some target =>
      refine .join fun line mem => ?_
      rcases List.mem_append.mp mem with mem | mem
      · rcases List.mem_append.mp mem with mem | mem
        · cases hd : i.default with
          | none =>
              rw [hd] at mem
              cases mem
          | some name =>
              rw [hd] at mem
              exact w.stands_of_mem_bindingLines plain (default name hd) mem
        · cases ho : i.object with
          | none =>
              rw [ho] at mem
              cases mem
          | some name =>
              rw [ho] at mem
              rw [List.mem_singleton.mp mem]
              exact w.stands_object plain (object name ho)
      · obtain ⟨lines, hlines, mem⟩ := List.mem_flatten.mp mem
        obtain ⟨pair, hp, rfl⟩ := List.mem_map.mp hlines
        exact w.stands_of_mem_bindingLines plain (named pair hp) mem

theorem isGiven_specOf {pair : Text × Text} (first : pair.1.Spelled IsLocal)
    (second : pair.2.Spelled IsWord) : IsGiven (specOf pair) where
  plain := by
    rcases first.chars with h | h
    · exact isPlain_of_isName h
    · show IsPlain pair.1.toCharsD
      rw [h]
      exact ⟨by decide, by decide⟩
  other o ho := by
    unfold specOf at ho
    split at ho
    · cases ho
    · cases ho
      exact second.chars

theorem stands_clauseLine {pairs : List (Text × Text)}
    (given : ∀ pair ∈ pairs, pair.1.Spelled IsLocal ∧ pair.2.Spelled IsWord) :
    (clauseLine (pairs.map fun (name, exported) => Externals.aliased name exported)).Stands := by
  cases pairs with
  | nil => exact Feeds.stands (List.forall_mem_nil _)
  | cons pair more =>
      refine stands_clause (toCharsD_aliases (pair :: more)) fun spec mem => ?_
      obtain ⟨pair', known, rfl⟩ := List.mem_map.mp (show spec ∈ (pair :: more).map specOf from mem)
      exact isGiven_specOf (given pair' known).1 (given pair' known).2

theorem WellFormed.isLocal_of_mem_clauseOf (w : g.WellFormed hooks) (plain : g.Plain)
    {taken : Taken} (h : taken.Plain) :
    ∀ pair ∈ g.clauseOf target taken, pair.1.Spelled IsLocal := by
  have found := w.isLocal_localName plain target
  cases taken with
  | object exported name => exact List.forall_mem_singleton.mpr (h.mono fun _ => .inl)
  | all | named => exact List.forall_mem_map.mpr fun pair _ => found _

/-- What stands in the place of a re-export stands alone, unless the re-export stays. -/
theorem WellFormed.stands_reExportLine (w : g.WellFormed hooks) (plain : g.Plain)
    (mem : m ∈ g.modules) {r : LinkedReExport} (hr : r ∈ m.reExports) {isRoot : Bool}
    (hroot : isRoot = true → m.id ∈ g.roots) (replaced : r.target.isSome || !isRoot) :
    (g.reExportLine m isRoot r).Stands := by
  have taken := (plain.modules m mem).reExports r hr
  unfold reExportLine
  split
  · next none =>
    rw [none] at replaced
    cases isRoot with
    | true => cases replaced
    | false => exact Feeds.stands (List.forall_mem_nil _)
  · next target found =>
    have words (root : isRoot = true) : ∀ pair ∈ g.clauseOf target r.taken, pair.2.Spelled IsWord :=
      plain.exported m mem (hroot root) r hr target found
    split
    · next exported name h =>
      rw [h] at taken words
      have line : (declare name (g.objectText target)).Stands := w.stands_object plain taken
      split
      · next isRoot =>
        have clause : (text "export " ++ Externals.braced [name ++ text " as " ++ exported] ++
            text ";").Stands := by
          have given : ∀ spec ∈ [(name.toCharsD, some exported.toCharsD)], IsGiven spec := by
            refine List.forall_mem_singleton.mpr ⟨isPlain_of_isName taken.chars, ?_⟩
            rintro _ ⟨⟩
            exact (List.forall_mem_singleton.mp (words isRoot)).chars
          refine stands_clause ?_ given
          simp [specChars, toCharsD_append, toCharsD_text]
        have feed : (text "\n").Stands := Feeds.stands (List.forall_mem_singleton.mpr rfl)
        have all := (line.append feed).append clause
        have split : text "\nexport " = text "\n" ++ text "export " := rfl
        simpa only [split, List.append_assoc] using all
      · exact line
    · split
      · exact Feeds.stands (List.forall_mem_nil _)
      · next isRoot =>
        have words := words (by simpa using isRoot)
        exact stands_clauseLine fun pair mem =>
          ⟨w.isLocal_of_mem_clauseOf plain taken pair mem, words pair mem⟩

/-! ## Modules -/

/-- The statements of a module that are replaced as a whole. -/
def wholeEdits (g : Graph) (isRoot : Bool) (m : Module) : List Edit :=
  (m.imports.map fun i => ⟨i.span, g.importText i⟩) ++ clauseEdits m isRoot ++
    (m.reExports.filter fun r => r.target.isSome || !isRoot).map fun r =>
      ⟨r.span, g.reExportLine m isRoot r⟩

/-- What is left of a module in the chunk of a root, between the statements that are
replaced as a whole. -/
def runs (g : Graph) (root : Text) (m : Module) : List Text :=
  Edit.runs (g.wholeEdits (m.id = root) m) m.source [] 0
    (Edit.inOrder (g.edits (chunkNames g.roots) (m.id = root) m))

theorem WellFormed.stands_of_mem_wholeEdits (w : g.WellFormed hooks)
    (plain : g.Plain) (mem : m ∈ g.modules) {isRoot : Bool}
    (hroot : isRoot = true → m.id ∈ g.roots) :
    ∀ e ∈ g.wholeEdits isRoot m, e.replacement.Stands := by
  refine List.forall_mem_append.mpr ⟨List.forall_mem_append.mpr ⟨?_, ?_⟩, ?_⟩
  · exact List.forall_mem_map.mpr fun i hi => w.stands_importText plain mem hi
  · unfold clauseEdits
    split
    · exact List.forall_mem_nil _
    · exact List.forall_mem_map.mpr fun span _ => Feeds.stands (List.forall_mem_nil _)
  · refine List.forall_mem_map.mpr fun r hr => ?_
    obtain ⟨hr, replaced⟩ := List.mem_filter.mp hr
    exact w.stands_reExportLine plain mem hr hroot replaced

theorem WellFormed.stands_bodyText (w : g.WellFormed hooks) (plain : g.Plain)
    (mem : m ∈ g.modules) (clear : m.Clear) (root : target ∈ g.roots)
    (kept : ∀ t ∈ g.runs target m, t.Stands) :
    (g.bodyText (chunkNames g.roots) target m ++ text "\n").Stands := by
  have lines : ∀ e ∈ g.wholeEdits (m.id = target) m, e.replacement.Stands :=
    w.stands_of_mem_wholeEdits plain mem fun h => of_decide_eq_true h ▸ root
  rw [bodyText_eq (w.body_eq_ok mem clear (chunkNames g.roots) target)]
  exact Edit.stands_weave [] lines kept

/-! ## Chunks -/

/-- What is left of each module stands alone in each chunk, between the statements that
are replaced as a whole. -/
def KeepsLines (g : Graph) : Prop :=
  ∀ root ∈ g.roots, ∀ m ∈ g.shown root, ∀ t ∈ g.runs root m, t.Stands

theorem WellFormed.complete_chunkText (w : g.WellFormed hooks) (clear : ∀ m ∈ g.modules, m.Clear)
    (plain : g.Plain) (kept : g.KeepsLines) (root : target ∈ g.roots) :
    IsComplete (g.chunkText (chunkNames g.roots) target).toCharsD := by
  have known (m : Module) (h : m ∈ g.shown target) : m ∈ g.modules := ((mem_shown_iff w).mp h).1
  have header : IsComplete ((g.externals target).render.toCharsD ++ ['\n']) := by
    refine (Stands.complete (.join fun line mem => ?_)).append complete_lineFeed
    obtain ⟨⟨source, e⟩, he, mem⟩ := List.mem_flatMap.mp mem
    exact stands_of_mem_statements (plain_externals (fun m h => plain.modules m (known m h)) _ he) mem
  have bodies : ∀ t ∈ g.bodies (chunkNames g.roots) target (g.shown target),
      IsComplete (t.toCharsD ++ ['\n']) := by
    intro t mem
    obtain ⟨body, made, rfl⟩ := List.mem_map.mp mem
    obtain ⟨m, h, rfl⟩ := List.mem_map.mp (List.mem_filter.mp made).1
    have own := known m h
    exact (w.stands_bodyText plain own (clear m own) root (kept target root m h)).trimLines
  refine complete_join ?_
  split
  · exact bodies
  · exact List.forall_mem_cons.mpr ⟨header, bodies⟩

/-- Chunks are put out and well formed if names are plain, if what is left of the sources
stands alone, and if literals of dynamic imports are in no one's way. -/
theorem generates_well_formed (built : build hooks budget input = .ok g) (known : format ∈ formats)
    (clear : ∀ m ∈ g.modules, m.Clear) (plain : g.Plain) (kept : g.KeepsLines) :
    ∃ chunks warnings, g.generate format = .ok (chunks, warnings) ∧
      ∀ chunk ∈ chunks, ∃ o, outline? chunk.code.toCharsD = some o := by
  have w := wellFormed_build built
  have renders : g.RendersAll := w.rendersAll clear
  refine ⟨_, _, generate_eq_ok_iff.mpr ⟨known, renders, rfl⟩, fun chunk mem => ?_⟩
  obtain ⟨root, hroot, code⟩ := exists_root_of_mem_chunks renders mem
  rw [code]
  exact Option.isSome_iff_exists.mp
    (w.complete_chunkText clear plain kept hroot).isSome_outline?

/-- A module that renames what it imports from another one, which imports from outside. -/
def renamed : List Artifact :=
  [⟨text "input.js",
      text "import \x7b x as y \x7d from \"./a\";\nconst p = y;\nexport \x7b p as q \x7d;\n"⟩,
    ⟨text "a.js", text "import w from \"ext\";\nconst v = w;\nexport \x7b v as x \x7d;\n"⟩]

theorem generates_renamed : ∃ g chunks warnings,
    ofModules renamed (text "input.js") = .ok g ∧ g.KeepsLines ∧
    g.generate (text "es") = .ok (chunks, warnings) ∧
    (∀ chunk ∈ chunks, ∃ o, outline? chunk.code.toCharsD = some o) ∧
    chunks.map Chunk.code = [text "import w from \"ext\";\n\nconst v = w;\n\n" ++
      text "const y = v;\nconst p = y;\nexport \x7b p as q \x7d;\n"] := by
  have run : (ofModules renamed (text "input.js")).toOption.map (fun g =>
      (decide ((∀ m ∈ g.modules, m.Clear) ∧ g.Plain),
        g.roots.flatMap fun root => (g.shown root).flatMap (g.runs root),
        g.chunks.1.map Chunk.code)) = some (true,
          [[], text "\n" ++ declare (text "v") (text "w") ++ text "\n", text "\n\n", [],
            text "\n" ++ declare (text "p") (text "y") ++ text "\n" ++
              (text "export " ++ Externals.braced [text "p as q"] ++ text ";") ++ text "\n\n"],
          [text "import w from \"ext\";\n\nconst v = w;\n\n" ++
            text "const y = v;\nconst p = y;\nexport \x7b p as q \x7d;\n"]) := by
    decide +kernel
  obtain ⟨g, built, run⟩ := Option.map_eq_some_iff.mp run
  obtain ⟨names, run⟩ := Prod.mk.inj run
  obtain ⟨left, codes⟩ := Prod.mk.inj run
  have built := Except.toOption_eq_some_iff.mp built
  have names := of_decide_eq_true names
  have feeds (t : Text) (h : ∀ c ∈ t, c = CodePoint.ofChar '\n') : t.Stands := Feeds.stands h
  have feed : (text "\n").Stands := feeds _ (List.forall_mem_singleton.mpr rfl)
  have clause : (text "export " ++ Externals.braced [text "p as q"] ++ text ";").Stands :=
    have given : ∀ spec ∈ [("p".toList, some "q".toList)], IsGiven spec :=
      List.forall_mem_singleton.mpr ⟨by decide, fun _ h => by cases h; decide⟩
    stands_clause rfl given
  have first : (declare (text "v") (text "w")).Stands :=
    stands_declare_local ⟨['v'], by decide, rfl⟩ ⟨['w'], .inl (by decide), rfl⟩
  have second : (declare (text "p") (text "y")).Stands :=
    stands_declare_local ⟨['p'], by decide, rfl⟩ ⟨['y'], .inl (by decide), rfl⟩
  have kept : g.KeepsLines := by
    intro root hroot m hm t ht
    have mem : t ∈ g.roots.flatMap fun root => (g.shown root).flatMap (g.runs root) :=
      List.mem_flatMap.mpr ⟨root, hroot, List.mem_flatMap.mpr ⟨m, hm, ht⟩⟩
    rw [left] at mem
    simp only [List.mem_cons, List.not_mem_nil, or_false] at mem
    rcases mem with rfl | rfl | rfl | rfl | rfl
    · exact feeds _ (List.forall_mem_nil _)
    · exact (feed.append first).append feed
    · exact feed.append feed
    · exact feeds _ (List.forall_mem_nil _)
    · exact (((feed.append second).append feed).append clause).append (feed.append feed)
  have known : text "es" ∈ formats := by decide
  obtain ⟨chunks, warnings, made, formed⟩ := generates_well_formed built known
    names.1 names.2 kept
  refine ⟨g, chunks, warnings, built, kept, made, formed, ?_⟩
  rw [← codes]
  exact congrArg (List.map Chunk.code) (congrArg Prod.fst (generate_eq_ok_iff.mp made).2.2)

/-- A module that exports a name of another one under a string. -/
def quoted : List Artifact :=
  [⟨text "input.js", text "export \x7b x as \"b c\" \x7d from \"./a\";\n"⟩,
    ⟨text "a.js", text "export const x = 1;\n"⟩]

/-- The string is written down without its quotes, and the chunk is not well formed. -/
theorem garbles_quoted : ∃ g chunk, ofModules quoted (text "input.js") = .ok g ∧
    g.generate (text "es") = .ok ([chunk], []) ∧
    chunk.code = text "const x = 1;\n\nexport \x7b x as b c \x7d;\n" ∧
    outline? chunk.code.toCharsD = none := by
  have run : (ofModules quoted (text "input.js")).toOption.map (fun g =>
      ((g.generate (text "es")).toOption, g.chunks.1.map fun chunk =>
        (outline? chunk.code.toCharsD).isNone)) = some (some ([⟨text "input.js",
          text "const x = 1;\n\nexport \x7b x as b c \x7d;\n", true, false⟩], []), [true]) := by
    decide +kernel
  obtain ⟨g, built, run⟩ := Option.map_eq_some_iff.mp run
  obtain ⟨made, formed⟩ := Prod.mk.inj run
  have built := Except.toOption_eq_some_iff.mp built
  have made := Except.toOption_eq_some_iff.mp made
  refine ⟨g, _, built, made, rfl, ?_⟩
  rw [← (generate_eq_ok_iff.mp made).2.2] at formed
  exact Option.isNone_iff_eq_none.mp (List.cons.inj formed).1

end Graph

end Playground.Link
