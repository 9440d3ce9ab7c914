import Playground.Proofs.Link.Loading
import Playground.Proofs.Link.Warnings

/-!
# What an exported declaration adds to the export table

An export table is made item by item, and what an item exports stands in it for the
item's own meaning unless a later item exports the same name. Of variables only those
are listed that are declared by a plain name. A pattern that takes a value apart binds
the names that stand in it at any depth, but none of them gets into the table, so the
table holds exactly what the declaration binds only if no pattern brings a name of its
own.
-/

namespace Playground

namespace Source

/-- A name stands in a pattern, at any depth. -/
inductive Pattern.Has (x : Text) : Pattern → Prop
  | name : Has x (.name x)
  | part {p : Pattern} {ps : List Pattern} (mem : p ∈ ps) (inside : Has x p) : Has x (.parts ps)

mutual

/-- What a pattern binds is what stands in it. -/
theorem Pattern.mem_binds_iff {x : Text} (p : Pattern) : x ∈ p.binds ↔ p.Has x := by
  cases p with
  | name y =>
      rw [Pattern.binds, List.mem_singleton]
      constructor
      · rintro rfl
        exact .name
      · rintro ⟨⟩
        rfl
  | parts ps =>
      rw [Pattern.binds, Pattern.mem_bindsAll_iff ps]
      constructor
      · rintro ⟨p, mem, inside⟩
        exact .part mem inside
      · rintro ⟨⟩
        exact ⟨_, ‹_›, ‹_›⟩
  | other =>
      rw [Pattern.binds]
      exact iff_of_false List.not_mem_nil nofun

theorem Pattern.mem_bindsAll_iff {x : Text} (ps : List Pattern) :
    x ∈ Pattern.bindsAll ps ↔ ∃ p ∈ ps, p.Has x := by
  cases ps with
  | nil => simp [Pattern.bindsAll]
  | cons p rest =>
      rw [Pattern.bindsAll, List.mem_append, Pattern.mem_binds_iff p,
        Pattern.mem_bindsAll_iff rest]
      simp only [List.mem_cons, exists_eq_or_imp]

end

/-- Variables are known to other modules by the plain names among their patterns. -/
theorem Declaration.mem_names_variableList_iff {x : Text} {patterns : List Pattern} :
    x ∈ (variableList patterns).names ↔ .name x ∈ patterns := by
  rw [names, List.mem_filterMap]
  constructor
  · rintro ⟨p, mem, plain⟩
    cases p with
    | name y => exact Option.some.inj plain ▸ mem
    | parts | other => cases plain
  · exact fun mem => ⟨_, mem, rfl⟩

end Source

namespace Link.Module

open Source Link.Graph

variable {resolve : Text → Option Text} {own source : Text} {count : Nat} {o : Outline}
  {m : Module} {x : Text} {patterns : List Pattern}

/-! ## The table after some items -/

theorem lookup_bindAll_of_notMem {bindings table : List (Text × Binding)}
    (h : x ∉ bindings.map Prod.fst) : (bindAll bindings table).lookup x = table.lookup x := by
  induction bindings generalizing table with
  | nil => rfl
  | cons first rest ih =>
      obtain ⟨ne, h⟩ := not_or.mp (mt List.mem_cons.mpr h)
      show (bindAll rest (Ordered.put first.1 first.2 table)).lookup x = _
      rw [ih h, Ordered.lookup_put, if_neg ne]

/-- Names that stand for themselves do so in the table. -/
theorem lookup_bindAll_here {names : List Text} {table : List (Text × Binding)} (h : x ∈ names) :
    (bindAll (names.map fun n => (n, .here n)) table).lookup x = some (.here x) := by
  induction names generalizing table with
  | nil => cases h
  | cons n rest ih =>
      show (bindAll (rest.map fun n => (n, .here n)) (Ordered.put n (.here n) table)).lookup x = _
      by_cases again : x ∈ rest
      · exact ih again
      · have first : x = n := (List.mem_cons.mp h).resolve_right again
        have notIn : x ∉ (rest.map fun n => (n, Binding.here n)).map Prod.fst := by
          rw [List.map_map]
          simpa using again
        rw [lookup_bindAll_of_notMem notIn, Ordered.lookup_put, if_pos first, first]

/-- The names that some items export. -/
def exposedBy (resolve : Text → Option Text) (items : List Item) : List Text :=
  items.flatMap (exposedOf resolve)

/-- Items leave an entry as it is unless they export its name. -/
theorem lookup_foldl_addItem_of_notMem {items : List Item} (h : x ∉ exposedBy resolve items)
    (start : Module × Nat) :
    (items.foldl (fun p item => addItem resolve p.1 p.2 item) start).1.exports.lookup x =
      start.1.exports.lookup x := by
  induction items generalizing start with
  | nil => rfl
  | cons item rest ih =>
      rw [exposedBy, List.flatMap_cons] at h
      obtain ⟨first, later⟩ := not_or.mp (mt List.mem_append.mpr h)
      rw [List.foldl_cons, ih later, addItem_eq]
      exact lookup_bindAll_of_notMem (map_fst_bindingsOf item ▸ first)

theorem notMem_after {before after : List Item}
    (h : x ∉ exposedBy resolve (before ++ after)) : x ∉ exposedBy resolve after := by
  rw [exposedBy, List.flatMap_append] at h
  exact (not_or.mp (mt List.mem_append.mpr h)).2

/-- The table as it is when one item has been added, for a name that no later one exports. -/
theorem lookup_ofOutline {before after : List Item} {item : Item}
    (items : o.items = before ++ item :: after) (h : x ∉ exposedBy resolve after) :
    ∃ n, (ofOutline resolve own source count o).1.exports.lookup x =
      (bindAll (bindingsOf resolve n item)
        (before.foldl (fun p item => addItem resolve p.1 p.2 item)
          ({ id := own, source }, count)).1.exports).lookup x := by
  obtain ⟨_, _, frame⟩ := ofOutline_frame resolve own source count o
  rw [frame, items, List.foldl_append, List.foldl_cons]
  generalize before.foldl (fun p item => addItem resolve p.1 p.2 item)
    ({ id := own, source }, count) = start
  have kept := lookup_foldl_addItem_of_notMem h (addItem resolve start.1 start.2 item)
  rw [addItem_eq] at kept
  exact ⟨start.2, kept⟩

/-! ## Exported variables -/

/-- Apart from the names in `others`, a table has exactly the bound names, each standing for itself. -/
def Lists (table : List (Text × Binding)) (others : List Text) (bound : Text → Prop) : Prop :=
  ∀ x ∉ others,
    (bound x → table.lookup x = some (.here x)) ∧ (¬ bound x → table.lookup x = none)

section

variable {before after : List Item} {span : Span} {start : Nat}

/-- A plain name of an exported declaration stands for itself, whatever stands before. -/
theorem lookup_ofOutline_of_plain
    (items : o.items =
      before ++ .exporting span (.declaration false start (.variableList patterns)) :: after)
    (plain : .name x ∈ patterns) (later : x ∉ exposedBy resolve after) :
    (ofOutline resolve own source count o).1.exports.lookup x = some (.here x) := by
  obtain ⟨n, table⟩ := @lookup_ofOutline resolve own source count o x _ _ _ items later
  rw [table]
  exact lookup_bindAll_here (Declaration.mem_names_variableList_iff.mpr plain)

/-- A name that is not plain is in the table only for another item. -/
theorem lookup_ofOutline_of_not_plain
    (items : o.items =
      before ++ .exporting span (.declaration false start (.variableList patterns)) :: after)
    (hidden : .name x ∉ patterns) (others : x ∉ exposedBy resolve (before ++ after)) :
    (ofOutline resolve own source count o).1.exports.lookup x = none := by
  rw [exposedBy, List.flatMap_append] at others
  obtain ⟨earlier, later⟩ := not_or.mp (mt List.mem_append.mpr others)
  obtain ⟨n, table⟩ := @lookup_ofOutline resolve own source count o x _ _ _ items later
  have notIn : x ∉ exposedOf resolve
      (.exporting span (.declaration false start (.variableList patterns))) :=
    mt Declaration.mem_names_variableList_iff.mp hidden
  rw [table, lookup_bindAll_of_notMem (by rwa [map_fst_bindingsOf])]
  exact lookup_foldl_addItem_of_notMem earlier _

theorem lists_ofOutline
    (items : o.items =
      before ++ .exporting span (.declaration false start (.variableList patterns)) :: after) :
    Lists (ofOutline resolve own source count o).1.exports (exposedBy resolve (before ++ after))
      fun x => .name x ∈ patterns := by
  intro x others
  exact ⟨fun plain => lookup_ofOutline_of_plain items plain (notMem_after others),
    fun hidden => lookup_ofOutline_of_not_plain items hidden others⟩

end

/-- Of an exported declaration the table has the variables that are declared by a plain name. So it has
exactly what the declaration binds if and only if the names in its other patterns are exported all
the same, by a plain name or by another item. -/
theorem lists_plain_names {hooks : Hooks} {later : Nat}
    (analysed : read hooks own source count = .ok (m, later)) :
    ∃ o, outline? source.toCharsD = some o ∧
      ∀ before span start patterns after, o.items =
          before ++ .exporting span (.declaration false start (.variableList patterns)) :: after →
        (∀ x, .name x ∈ patterns → x ∉ exposedBy (resolveIn hooks own) after →
          m.exports.lookup x = some (.here x)) ∧
        Lists m.exports (exposedBy (resolveIn hooks own) (before ++ after))
          (fun x => .name x ∈ patterns) ∧
        (Lists m.exports (exposedBy (resolveIn hooks own) (before ++ after))
            (fun x => x ∈ (Declaration.variableList patterns).binds) ↔
          ∀ ps, .parts ps ∈ patterns → ∀ x, (Pattern.parts ps).Has x →
            .name x ∈ patterns ∨ x ∈ exposedBy (resolveIn hooks own) (before ++ after)) := by
  obtain ⟨-, o, outline, rfl⟩ := outline_of_read analysed
  refine ⟨o, outline, fun before span start patterns after items => ?_⟩
  have plain := @lists_ofOutline (resolveIn hooks own) own source count o _ _ _ _ _ items
  refine ⟨fun x plain => lookup_ofOutline_of_plain items plain, plain, ?_, ?_⟩
  · intro all ps mem x inside
    by_contra missing
    obtain ⟨hidden, others⟩ := not_or.mp missing
    have bound : x ∈ (Declaration.variableList patterns).binds :=
      (Pattern.mem_bindsAll_iff patterns).mpr ⟨_, mem, inside⟩
    have listed := (all x others).1 bound
    rw [(plain x others).2 hidden] at listed
    cases listed
  · intro exported x others
    refine ⟨fun bound => (plain x others).1 ?_, fun unbound => (plain x others).2 ?_⟩
    · obtain ⟨p, mem, inside⟩ := (Pattern.mem_bindsAll_iff patterns).mp bound
      cases p with
      | name y =>
          cases inside
          exact mem
      | parts ps => exact (exported ps mem x inside).resolve_right others
      | other => cases inside
    · exact mt (fun plain => (Pattern.mem_bindsAll_iff patterns).mpr ⟨_, plain, .name⟩) unbound

/-- A declaration with one plain name and two patterns. -/
def mixed : Text := text "export const \x7b a, b: [c = 1, ...d] \x7d = o, f = 2, \x7b e \x7d = p;\n"

/-- The patterns of the one declaration in an outline that exports nothing else. -/
def patternsOf : Outline → Option (List Pattern)
  | ⟨[.exporting _ (.declaration false _ (.variableList patterns))], _⟩ => some patterns
  | _ => none

theorem items_of_patternsOf (h : patternsOf o = some patterns) : ∃ span start,
    o.items = [.exporting span (.declaration false start (.variableList patterns))] := by
  unfold patternsOf at h
  split at h
  · cases h
    exact ⟨_, _, rfl⟩
  · cases h

theorem lists_plain_names_mixed : ∃ m later patterns,
    read ⟨fun _ _ => none, fun _ => none⟩ (text "m") mixed 0 = .ok (m, later) ∧
    ((outline? mixed.toCharsD).bind patternsOf) = some patterns ∧
    Pattern.bindsAll patterns = [text "a", text "c", text "d", text "f", text "e"] ∧
    m.exports.lookup (text "f") = some (.here (text "f")) ∧
    m.exports.lookup (text "c") = none ∧
    ¬ Lists m.exports [] (fun x => x ∈ (Declaration.variableList patterns).binds) := by
  have run : (read ⟨fun _ _ => none, fun _ => none⟩ (text "m") mixed 0).toOption.isSome ∧
      ((outline? mixed.toCharsD).bind patternsOf).map
        (fun patterns => (Pattern.bindsAll patterns, patterns.filterMap Declaration.plainName?)) =
      some ([text "a", text "c", text "d", text "f", text "e"], [text "f"]) := by decide +kernel
  obtain ⟨⟨m, later⟩, made⟩ := Option.isSome_iff_exists.mp run.1
  obtain ⟨patterns, found, names⟩ := Option.map_eq_some_iff.mp run.2
  obtain ⟨binds, plain⟩ := Prod.mk.inj names
  have analysed := Except.toOption_eq_some_iff.mp made
  obtain ⟨o, outline, all⟩ := lists_plain_names analysed
  rw [outline] at found
  obtain ⟨_, ⟨⟩, alone⟩ := Option.bind_eq_some_iff.mp found
  obtain ⟨span, start, items⟩ := items_of_patternsOf alone
  obtain ⟨-, listed, -⟩ := all [] span start patterns [] items
  have hnames : (Declaration.variableList patterns).names = [text "f"] := plain
  have isPlain (x : Text) : Pattern.name x ∈ patterns ↔ x = text "f" := by
    rw [← Declaration.mem_names_variableList_iff, hnames, List.mem_singleton]
  have f := (listed (text "f") List.not_mem_nil).1 ((isPlain _).mpr rfl)
  have c := (listed (text "c") List.not_mem_nil).2 (mt (isPlain _).mp (by decide))
  refine ⟨m, later, patterns, analysed, by rw [outline]; exact alone, binds, f, c, fun claimed => ?_⟩
  have bound : text "c" ∈ (Declaration.variableList patterns).binds := by
    show text "c" ∈ Pattern.bindsAll patterns
    rw [binds]
    decide
  rw [(claimed (text "c") List.not_mem_nil).1 bound] at c
  cases c

/-- A name that is bound by taking a value apart, and a module that imports it. -/
def takenApart : List Artifact :=
  [⟨text "input.js", text "import \x7b a \x7d from \"./m\";\nuse(a);\n"⟩,
    ⟨text "m.js", text "export const \x7b a \x7d = o;\n"⟩]

/-- The name is bound but not in the table, and where it is imported it is undefined. -/
theorem omits_taken_apart :
    ((outline? (text "export const \x7b a \x7d = o;\n").toCharsD).bind patternsOf).map
      (fun patterns => (Declaration.variableList patterns).binds) = some [text "a"] ∧
    ((ofModules takenApart (text "input.js")).toOption.map fun g =>
      (g.modules.map fun m => (m.id, m.exports))) =
      some [(text "input.js", []), (text "./m.js", [])] ∧
    ((ofModules takenApart (text "input.js")).toOption.bind fun g =>
      (g.generate (text "es")).toOption) =
      some ([⟨text "input.js", text "const \x7b a \x7d = o;\n\nconst a = undefined;\nuse(a);\n", true, false⟩],
        [text "\"a\" is not exported by ./m.js, imported by input.js"]) := by
  refine ⟨?_, ?_, ?_⟩ <;> decide +kernel

end Link.Module

end Playground
