import Playground.Proofs.Link.Texts
import Playground.Proofs.Source.Complete

/-!
# Lines that stand alone

What the linker puts together are pieces of sources and lines of its own, and it
takes line feeds away at the ends of what it has put together. A text stands alone
if it is complete without the line feeds at its ends, but for one behind it that
may end a comment. Then it does not matter how many line feeds are taken away, and
texts that stand alone can be put one behind the other.
-/

namespace Playground

open Source

/-! ## Line feeds at the ends -/

namespace Text

/-- There is nothing but line feeds in a text. -/
def Feeds (t : Text) : Prop :=
  ∀ c ∈ t, c = CodePoint.ofChar '\n'

/-- There is no line feed at the ends of a text. -/
structure Trimmed (t : Text) : Prop where
  first : ∀ c ∈ t.head?, c ≠ CodePoint.ofChar '\n'
  last : ∀ c ∈ t.getLast?, c ≠ CodePoint.ofChar '\n'

/-- A text is complete without the line feeds at its ends, but for one behind it. -/
def Stands (t : Text) : Prop :=
  ∃ before core after : Text, t = before ++ core ++ after ∧ before.Feeds ∧ after.Feeds ∧
    core.Trimmed ∧ IsComplete (core.toCharsD ++ if after = [] then [] else ['\n'])

variable {s t before core after : Text} {ts : List Text}

theorem Feeds.append (hs : s.Feeds) (ht : t.Feeds) : (s ++ t).Feeds :=
  List.forall_mem_append.mpr ⟨hs, ht⟩

theorem Feeds.isFeeds (h : t.Feeds) : IsFeeds t.toCharsD :=
  List.forall_mem_map.mpr fun c mem => by
    rw [h c mem]
    rfl

theorem dropWhile_of_trimmed {p : CodePoint → Bool} (h : ∀ c ∈ t.head?, p c = false) :
    t.dropWhile p = t := by
  cases t with
  | nil => rfl
  | cons c rest => rw [List.dropWhile_cons_of_neg (by rw [h c rfl]; exact Bool.false_ne_true)]

theorem trimLines_eq (hb : before.Feeds) (ha : after.Feeds) (hc : core.Trimmed) :
    Link.Graph.trimLines (before ++ core ++ after) = core := by
  let isFeed (c : CodePoint) : Bool := c = CodePoint.ofChar '\n'
  show (((before ++ core ++ after).dropWhile isFeed).reverse.dropWhile isFeed).reverse = core
  have drop {feeds : Text} (h : feeds.Feeds) (t : Text) :
      (feeds ++ t).dropWhile isFeed = t.dropWhile isFeed :=
    List.dropWhile_append_of_pos fun c mem => decide_eq_true (h c mem)
  rw [List.append_assoc, drop hb]
  by_cases none : core = []
  · have nothing := drop ha []
    rw [List.append_nil] at nothing
    rw [none, List.nil_append, nothing]
    rfl
  · have front : (core ++ after).dropWhile isFeed = core ++ after := by
      refine dropWhile_of_trimmed fun c hc' => ?_
      rw [List.head?_append_of_ne_nil _ none] at hc'
      exact decide_eq_false (hc.first c hc')
    have back : core.reverse.dropWhile isFeed = core.reverse := by
      refine dropWhile_of_trimmed fun c hc' => ?_
      rw [List.head?_reverse] at hc'
      exact decide_eq_false (hc.last c hc')
    have feeds : Feeds after.reverse := fun c mem => ha c (List.mem_reverse.mp mem)
    rw [front, List.reverse_append, drop feeds, back, List.reverse_reverse]

theorem Stands.line (complete : IsComplete t.toCharsD) (trimmed : t.Trimmed) : t.Stands := by
  refine ⟨[], t, [], by simp, List.forall_mem_nil _, List.forall_mem_nil _, trimmed, ?_⟩
  rwa [if_pos rfl, List.append_nil]

theorem Feeds.stands (h : t.Feeds) : t.Stands := by
  refine ⟨t, [], [], by simp, h, List.forall_mem_nil _, ⟨nofun, nofun⟩, ?_⟩
  exact IsFeeds.complete (List.forall_mem_nil _)

theorem complete_lineFeed : IsComplete ['\n'] :=
  IsFeeds.complete (List.forall_mem_singleton.mpr rfl)

/-- Whatever stands behind it, a complete text may have line feeds behind it. -/
theorem complete_of_after (complete : IsComplete (core.toCharsD ++ if after = [] then [] else ['\n']))
    (feeds : after.Feeds) : IsComplete (core ++ after).toCharsD := by
  rw [toCharsD_append]
  cases after with
  | nil => exact complete
  | cons c rest =>
      obtain ⟨rfl, later⟩ := List.forall_mem_cons.mp feeds
      have all := complete.append (Feeds.isFeeds later).complete
      rw [if_neg (List.cons_ne_nil _ _), List.append_assoc] at all
      exact all

theorem Stands.append (hs : s.Stands) (ht : t.Stands) : (s ++ t).Stands := by
  obtain ⟨before, core, after, rfl, hb, ha, trimmed, complete⟩ := hs
  obtain ⟨before', core', after', rfl, hb', ha', trimmed', complete'⟩ := ht
  by_cases none : core = []
  · subst none
    refine ⟨before ++ after ++ before', core', after', by simp, (hb.append ha).append hb', ha',
      trimmed', complete'⟩
  by_cases none' : core' = []
  · subst none'
    have feeds := (ha.append hb').append ha'
    refine ⟨before, core, after ++ before' ++ after', by simp, hb, feeds, trimmed, ?_⟩
    split
    · next h =>
        simp only [List.append_eq_nil_iff] at h
        rwa [if_pos h.1.1] at complete
    · split at complete
      · rw [List.append_nil] at complete
        exact complete.append complete_lineFeed
      · exact complete
  · refine ⟨before, core ++ after ++ before' ++ core', after', by simp, hb, ha', ?_, ?_⟩
    · constructor
      · rw [List.append_assoc, List.append_assoc, List.head?_append_of_ne_nil _ none]
        exact trimmed.first
      · rw [List.getLast?_append_of_ne_nil _ none']
        exact trimmed'.last
    · have front := (complete_of_after complete ha).append (Feeds.isFeeds hb').complete
      have all := front.append complete'
      rwa [← toCharsD_append, ← List.append_assoc, ← toCharsD_append] at all

theorem Stands.complete (h : t.Stands) : IsComplete t.toCharsD := by
  obtain ⟨before, core, after, rfl, hb, ha, -, complete⟩ := h
  rw [List.append_assoc, toCharsD_append]
  exact (Feeds.isFeeds hb).complete.append (complete_of_after complete ha)

/-- The text without the line feeds at its ends is complete on a line. -/
theorem Stands.trimLines (h : (t ++ [CodePoint.ofChar '\n']).Stands) :
    IsComplete ((Link.Graph.trimLines t).toCharsD ++ ['\n']) := by
  obtain ⟨before, core, after, eq, hb, ha, trimmed, complete⟩ := h
  rcases List.eq_nil_or_concat after with rfl | ⟨init, c, rfl⟩
  · have none : core = [] := by
      by_contra some
      have last := congrArg List.getLast? eq
      rw [List.append_nil, List.getLast?_concat, List.getLast?_append_of_ne_nil _ some] at last
      exact trimmed.last _ last.symm rfl
    subst none
    rw [List.append_nil, List.append_nil] at eq
    have feeds : t.Feeds := fun c mem => hb c (eq ▸ List.mem_append_left _ mem)
    have trim := trimLines_eq feeds (List.forall_mem_nil _) trimmed
    rw [List.append_nil, List.append_nil] at trim
    rw [trim]
    exact complete_lineFeed
  · rw [List.concat_eq_append] at eq ha complete
    rw [← List.append_assoc] at eq
    rw [(List.append_inj_left' eq rfl), trimLines_eq hb ?_ trimmed]
    · rwa [if_neg (by simp)] at complete
    · exact fun c mem => ha c (List.mem_append_left _ mem)

theorem Stands.join (h : ∀ t ∈ ts, t.Stands) : (Text.join (text "\n") ts).Stands := by
  induction ts with
  | nil => exact Feeds.stands (List.forall_mem_nil _)
  | cons t rest ih =>
      obtain ⟨first, later⟩ := List.forall_mem_cons.mp h
      cases rest with
      | nil => exact first
      | cons =>
          have feed : (text "\n").Stands := Feeds.stands (List.forall_mem_singleton.mpr rfl)
          exact (first.append feed).append (ih later)

/-- Texts that are complete on lines make a text that is complete on lines. -/
theorem complete_join (h : ∀ t ∈ ts, IsComplete (t.toCharsD ++ ['\n'])) :
    IsComplete (Text.join (text "\n\n") ts ++ text "\n").toCharsD := by
  induction ts with
  | nil => exact complete_lineFeed
  | cons t rest ih =>
      obtain ⟨first, later⟩ := List.forall_mem_cons.mp h
      cases rest with
      | nil =>
          rw [toCharsD_append]
          exact first
      | cons u more =>
          have all := (first.append complete_lineFeed).append (ih later)
          have eq : (Text.join (text "\n\n") (t :: u :: more) ++ text "\n").toCharsD =
              t.toCharsD ++ ['\n'] ++ ['\n'] ++
                (Text.join (text "\n\n") (u :: more) ++ text "\n").toCharsD := by
            simp only [join, toCharsD_append, toCharsD_text, List.append_assoc]
            rfl
          rwa [eq]

/-! ## Names -/

/-- A name is spelled with characters that have a property. -/
def Spelled (name : Text) (P : List Char → Prop) : Prop :=
  ∃ w, P w ∧ ofChars w = name

variable {P Q : List Char → Prop} {name other : Text}

theorem Spelled.chars (h : name.Spelled P) : P name.toCharsD := by
  obtain ⟨w, hw, rfl⟩ := h
  rwa [toCharsD_ofChars]

theorem Spelled.ofChars_toCharsD (h : name.Spelled P) : ofChars name.toCharsD = name := by
  obtain ⟨w, -, rfl⟩ := h
  rw [toCharsD_ofChars]

theorem Spelled.mono (h : name.Spelled P) (imp : ∀ w, P w → Q w) : name.Spelled Q := by
  obtain ⟨w, hw, rfl⟩ := h
  exact ⟨w, imp w hw, rfl⟩

instance [DecidablePred P] : Decidable (name.Spelled P) :=
  decidable_of_iff (P name.toCharsD ∧ ofChars name.toCharsD = name)
    ⟨fun h => ⟨_, h.1, h.2⟩, fun h => ⟨h.chars, by
      obtain ⟨w, -, rfl⟩ := h
      rw [toCharsD_ofChars]⟩⟩

end Text

namespace Link

open Text

/-- A local name of a chunk: one of a module, or the one for what is missing. -/
def IsLocal (w : List Char) : Prop :=
  IsName w ∨ w = "undefined".toList

variable {g : Graph} {name value target : Text}

theorem IsLocal.isValue {w : List Char} (h : IsLocal w) : IsValueWord w := by
  rcases h with h | h
  · exact .name h
  · exact .constant (.inr h)

/-! ## Declarations -/

theorem trimmed_line {t : Text} (first : ∀ c ∈ t.head?, c ≠ CodePoint.ofChar '\n') :
    (t ++ text ";").Trimmed := by
  constructor
  · cases t with
    | nil => decide
    | cons => exact first
  · intro c hc
    have last : (t ++ text ";").getLast? = some (CodePoint.ofChar ';') := List.getLast?_concat
    rw [last] at hc
    cases hc
    decide

theorem toCharsD_declare (name value : Text) :
    (Graph.declare name value).toCharsD = declareChars name.toCharsD value.toCharsD := by
  unfold Graph.declare declareChars
  simp [toCharsD_append, toCharsD_text]

theorem stands_declare (plain : name.Spelled IsName)
    (reads : ∀ depth, ReadsValue (grammar (depth + 3)) value.toCharsD) :
    (Graph.declare name value).Stands := by
  refine .line ?_ (trimmed_line ?_)
  · rw [toCharsD_declare]
    exact complete_declare plain.chars reads
  · rintro _ ⟨⟩
    decide

theorem stands_declare_local (plain : name.Spelled IsName) (found : value.Spelled IsLocal) :
    (Graph.declare name value).Stands :=
  stands_declare plain fun _ => readsValue_word found.chars.isValue

theorem toCharsD_entries (f : Text → Text) (names : List Text) :
    Text.toCharsD (names.map fun name => text ", " ++ Json.renderString true name ++ text ": " ++
      f name).flatten = Reader.behindCommas entryText (names.map fun n => (n, (f n).toCharsD)) := by
  induction names with
  | nil => rfl
  | cons n rest ih =>
      rw [List.map_cons, List.flatten_cons, toCharsD_append, ih, List.map_cons, Reader.behindCommas,
        Reader.behindCommas, List.flatMap_cons]
      simp [toCharsD_append, toCharsD_text, entryText]

theorem toCharsD_objectText (g : Graph) (target : Text) :
    (g.objectText target).toCharsD = frozenChars
      (((g.exportNames target).mergeSort Text.le).map fun n =>
        (n, (g.localName target n).toCharsD)) := by
  rw [Graph.objectText, toCharsD_append, toCharsD_append, toCharsD_entries]
  unfold frozenChars objectChars
  simp [toCharsD_text]

/-! ## Clauses -/

theorem toCharsD_join (sep first : Text) (names : List Text) :
    (Text.join sep (first :: names)).toCharsD =
      first.toCharsD ++ names.flatMap fun name => sep.toCharsD ++ name.toCharsD := by
  induction names generalizing first with
  | nil => simp [Text.join]
  | cons second rest ih =>
      have eq : Text.join sep (first :: second :: rest) =
          first ++ sep ++ Text.join sep (second :: rest) := rfl
      rw [eq, toCharsD_append, toCharsD_append, ih, List.flatMap_cons]
      simp only [List.append_assoc]

/-- Names in braces are written as the reader of names in braces expects them. -/
theorem toCharsD_braced {names : List Text} {spec : Spec} {more : List Spec}
    (same : names.map Text.toCharsD = (spec :: more).map specChars) :
    (Externals.braced names).toCharsD = bracedChars (spec :: more) := by
  cases names with
  | nil => cases same
  | cons first rest =>
      obtain ⟨one, others⟩ := List.cons.inj same
      have commas : rest.flatMap (fun name => (text ", ").toCharsD ++ name.toCharsD) =
          Reader.behindCommas specChars more := by
        rw [Reader.behindCommas, ← List.flatMap_map specChars (fun t => ',' :: ' ' :: t), ← others,
          List.flatMap_map]
        rfl
      rw [Externals.braced, toCharsD_append, toCharsD_append, toCharsD_join, one, commas]
      simp [bracedChars, toCharsD_text]

/-- A name in braces and the other one that it is given, if that is not the same. -/
def specOf (pair : Text × Text) : Spec :=
  (pair.1.toCharsD, if pair.1 = pair.2 then none else some pair.2.toCharsD)

theorem toCharsD_aliased (pair : Text × Text) :
    (Externals.aliased pair.1 pair.2).toCharsD = specChars (specOf pair) := by
  unfold Externals.aliased specOf
  split
  · rfl
  · simp [specChars, toCharsD_append, toCharsD_text]

theorem stands_clause {names : List Text} {spec : Spec} {more : List Spec}
    (same : names.map Text.toCharsD = (spec :: more).map specChars)
    (given : ∀ spec' ∈ spec :: more, IsGiven spec') :
    (text "export " ++ Externals.braced names ++ text ";").Stands := by
  refine .line ?_ (trimmed_line ?_)
  · rw [toCharsD_append, toCharsD_append, toCharsD_braced same]
    have eq : (text "export ").toCharsD ++ bracedChars (spec :: more) ++ (text ";").toCharsD =
        exportChars (spec :: more) := by
      unfold exportChars
      simp [toCharsD_text]
    rw [eq]
    exact complete_export given
  · rintro _ ⟨⟩
    decide

/-! ## Imports from outside -/

/-- The names that are imported from some source are plain. -/
structure External.Plain (e : External) : Prop where
  default : ∀ name ∈ e.default, name.Spelled IsName
  objects : ∀ name ∈ e.objects, name.Spelled IsName
  named : ∀ pair ∈ e.named, pair.1.Spelled IsPlain ∧ pair.2.Spelled IsName

theorem isTaken_specOf {pair : Text × Text} (first : pair.1.Spelled IsPlain)
    (second : pair.2.Spelled IsName) : IsTaken (specOf pair) where
  given := by
    refine ⟨first.chars, fun o ho => ?_⟩
    unfold specOf at ho
    split at ho
    · cases ho
    · cases ho
      exact second.chars.word
  named none := by
    unfold specOf at none
    split at none
    · next same =>
        show pair.1.toCharsD ≠ _
        rw [same]
        exact second.chars.free "default" (by decide)
    · cases none

theorem specPair_specOf {pair : Text × Text} (first : pair.1.Spelled P)
    (second : pair.2.Spelled Q) : specPair (specOf pair) = pair := by
  unfold specPair specOf
  split
  · next same =>
      simp only [Option.map_none, Option.getD_none, first.ofChars_toCharsD]
      exact Prod.ext rfl same
  · simp only [Option.map_some, Option.getD_some, first.ofChars_toCharsD, second.ofChars_toCharsD]

theorem isPlain_of_isName {w : List Char} (h : IsName w) : IsPlain w :=
  ⟨h.word, h.free "type" (by decide), h.free "typeof" (by decide)⟩

/-- An import statement at the top of a chunk. -/
structure Statement where
  source : Text
  default : Option Text := none
  object : Option Text := none
  named : List (Text × Text) := []

namespace Statement

/-- What a statement says between its first word and its source. -/
def clause (s : Statement) : List Text :=
  s.default.toList ++ (s.object.map (text "* as " ++ ·)).toList ++
    if s.named.isEmpty then []
    else [Externals.braced (s.named.map fun pair => Externals.aliased pair.1 pair.2)]

/-- How a statement is written. -/
def write (s : Statement) : Text :=
  if s.clause.isEmpty then text "import " ++ Json.renderString true s.source ++ text ";"
  else text "import " ++ Text.join (text ", ") s.clause ++ text " from " ++
    Json.renderString true s.source ++ text ";"

/-- What a statement is read as. -/
abbrev Means (s : Statement) : Item → Prop :=
  Imports (importOf (literalText s.source) s.default s.object s.named)

end Statement

/-- The statements that import from a source what is taken from there. -/
def External.statements (source : Text) (e : External) : List Statement :=
  let first : List Statement :=
    if e.default.isNone && e.named.isEmpty then []
    else [{ source, default := e.default, named := e.named }]
  match first ++ e.objects.map fun o => { source, object := some o } with
  | [] => [{ source }]
  | found => found

theorem statements_eq (source : Text) (e : External) :
    Externals.statements source e = (e.statements source).map Statement.write := by
  obtain ⟨default, objects, named⟩ := e
  have whole : (objects.map fun o =>
      text "import * as " ++ o ++ text " from " ++ Json.renderString true source ++ text ";") =
      (objects.map fun o => ({ source, object := some o } : Statement)).map Statement.write := by
    rw [List.map_map]
    rfl
  unfold Externals.statements External.statements
  simp only [whole]
  cases default <;> cases named <;> cases objects <;> rfl

theorem mem_statements_iff {source : Text} {e : External} {s : Statement} :
    s ∈ e.statements source ↔
      s = { source, default := e.default, named := e.named } ∧ (e.default ≠ none ∨ e.named ≠ []) ∨
      (∃ o ∈ e.objects, s = { source, object := some o }) ∨
      s = { source } ∧ e.default = none ∧ e.named = [] ∧ e.objects = [] := by
  obtain ⟨default, objects, named⟩ := e
  unfold External.statements
  cases default <;> cases named <;> cases objects <;> simp [eq_comm]

theorem toCharsD_aliases (pairs : List (Text × Text)) :
    (pairs.map fun pair => Externals.aliased pair.1 pair.2).map Text.toCharsD =
      (pairs.map specOf).map specChars := by
  rw [List.map_map, List.map_map]
  exact List.map_congr_left fun pair _ => toCharsD_aliased pair

theorem reads_write {s : Statement} {w t : List Char} {rules : Grammar} (some : s.clause ≠ [])
    (same : (Text.join (text ", ") s.clause).toCharsD = w)
    (read : Reader.Reads (item rules) (fromChars w s.source ++ t) s.Means t) :
    Reader.Reads (item rules) (s.write.toCharsD ++ t) s.Means t := by
  have notEmpty : ¬ s.clause.isEmpty = true := by simpa using some
  have eq : s.write.toCharsD = fromChars w s.source := by
    rw [Statement.write, if_neg notEmpty, ← same]
    unfold fromChars
    simp [toCharsD_append, toCharsD_text]
  rwa [eq]

/-- A statement that takes the default or names is read as what it says. -/
theorem reads_names {source : Text} {default : Option Text} {named : List (Text × Text)}
    {t : List Char} {rules : Grammar} (some : default ≠ none ∨ named ≠ [])
    (plain : ∀ name ∈ default, name.Spelled IsName)
    (plains : ∀ pair ∈ named, pair.1.Spelled IsPlain ∧ pair.2.Spelled IsName) :
    Reader.Reads (item rules) (({ source, default, named } : Statement).write.toCharsD ++ t)
      ({ source, default, named } : Statement).Means t := by
  have taken : ∀ spec ∈ named.map specOf, IsTaken spec :=
    List.forall_mem_map.mpr fun pair mem => isTaken_specOf (plains pair mem).1 (plains pair mem).2
  have same : (named.map specOf).map specPair = named := by
    rw [List.map_map]
    refine (List.map_congr_left fun pair mem => ?_).trans (List.map_id _)
    exact specPair_specOf (plains pair mem).1 (plains pair mem).2
  have aliases := toCharsD_aliases named
  cases default with
  | none =>
      cases named with
      | nil => simp at some
      | cons pair more =>
          have read := @reads_item_named rules t _ _ source taken
          rw [← List.map_cons, same] at read
          exact reads_write (List.cons_ne_nil _ _) (toCharsD_braced aliases) read
  | some name =>
      have spelled := plain name rfl
      have read := @reads_item_default rules t _ _ source (isPlain_of_isName spelled.chars) taken
      rw [same, spelled.ofChars_toCharsD] at read
      refine reads_write (List.cons_ne_nil _ _) ?_ read
      cases named with
      | nil => rfl
      | cons pair more =>
          show (name ++ text ", " ++ Externals.braced _).toCharsD = _
          rw [toCharsD_append, toCharsD_append, toCharsD_text, toCharsD_braced aliases]
          simp [defaultChars]

/-- A statement is read as what it says, whatever comes behind it. -/
theorem reads_statement {source : Text} {e : External} {s : Statement} {t : List Char}
    {rules : Grammar} (plain : e.Plain) (mem : s ∈ e.statements source) :
    Reader.Reads (item rules) (s.write.toCharsD ++ t) s.Means t := by
  rcases mem_statements_iff.mp mem with ⟨rfl, some⟩ | ⟨o, ho, rfl⟩ | ⟨rfl, -⟩
  · exact reads_names some plain.default plain.named
  · have spelled := plain.objects o ho
    have read := @reads_item_whole rules t _ source spelled.chars.word
    rw [spelled.ofChars_toCharsD] at read
    refine reads_write (List.cons_ne_nil _ _) ?_ read
    show (text "* as " ++ o).toCharsD = _
    unfold wholeChars
    simp [toCharsD_append, toCharsD_text]
  · have eq : ({ source } : Statement).write.toCharsD = sourceChars source := by
      show (text "import " ++ Json.renderString true source ++ text ";").toCharsD = _
      unfold sourceChars
      simp [toCharsD_append, toCharsD_text]
    rw [eq]
    exact reads_item_source source

/-- The statements that import from one source stand alone. -/
theorem stands_of_mem_statements {source line : Text} {e : External} (plain : e.Plain)
    (mem : line ∈ Externals.statements source e) : line.Stands := by
  rw [statements_eq] at mem
  obtain ⟨s, hs, rfl⟩ := List.mem_map.mp mem
  have begins : ∃ more, s.write = text "import " ++ more ++ text ";" := by
    unfold Statement.write
    split
    · exact ⟨_, rfl⟩
    · exact ⟨Text.join (text ", ") s.clause ++ text " from " ++ Json.renderString true s.source,
        by simp only [List.append_assoc]⟩
  obtain ⟨more, eq⟩ := begins
  refine .line (.of_item ?_ fun _ _ => (reads_statement plain hs).pass) ?_
  · rw [eq]
    exact ⟨'i', rfl, by decide⟩
  · rw [eq]
    refine trimmed_line ?_
    rintro _ ⟨⟩
    decide

end Link

end Playground
