import Playground.Proofs.Source.Written

/-!
# Reading the clauses that the linker writes

The imports of a chunk are gathered at its top, and what its root exports again is
written down as an export clause. Both name things in braces. There a word may say
that only a type is meant, and the one that does is an ordinary name elsewhere, so the
names that are written down must be other words. Then an import statement is read as
what it says: its source, a default, an object and the names in braces.
-/

namespace Playground.Source

open Reader

variable {g : Grammar} {s s' t w : List Char}

/-! ## Names in braces -/

/-- A name that may be given another one in braces. -/
structure IsPlain (w : List Char) : Prop where
  word : IsWord w
  free : w ≠ "type".toList ∧ w ≠ "typeof".toList

instance (w : List Char) : Decidable (IsPlain w) :=
  decidable_of_iff (IsWord w ∧ w ≠ "type".toList ∧ w ≠ "typeof".toList)
    ⟨fun h => ⟨h.1, h.2⟩, fun h => ⟨h.word, h.free⟩⟩

/-- A name in braces, perhaps with the other name that it is given. -/
abbrev Spec := List Char × Option (List Char)

/-- How a name in braces is written. -/
def specChars : Spec → List Char
  | (name, none) => name
  | (name, some other) => name ++ ' ' :: 'a' :: 's' :: ' ' :: other

/-- What a name in braces is read as: the name and the one that it is given. -/
def specPair (spec : Spec) : Text × Text :=
  (Text.ofChars spec.1, (spec.2.map Text.ofChars).getD (Text.ofChars spec.1))

/-- Names in braces. -/
def bracedChars : List Spec → List Char
  | [] => ['\x7b', ' ', ' ', '\x7d']
  | spec :: more =>
    '\x7b' :: ' ' :: (specChars spec ++ (behindCommas specChars more ++ [' ', '\x7d']))

/-- What stands behind a name in braces. -/
structure EndsSpec (s : List Char) : Prop where
  ends : EndsWord s
  noWord : NoWord s

theorem reads_typeOnlyAhead (h : Begins s w s') (plain : IsPlain w) :
    Reads typeOnlyAhead s (· = false) s :=
  ((fails_keyword h plain.free.1).orElse (fails_keyword h plain.free.2)).test

theorem reads_exportName (h : Begins s w s') : Reads exportName s (· = Text.ofChars w) s' :=
  .left (reads_name h)

/-- A name in braces and the other one that it is given. -/
theorem reads_named {p : Reader Text} {spec : Spec} (first : IsWord spec.1)
    (other : ∀ o ∈ spec.2, IsWord o) (ends : EndsSpec s)
    (reads : ∀ {t t' : List Char} {w : List Char}, Begins t w t' →
      Reads p t (· = Text.ofChars w) t') :
    ∃ t, Begins (' ' :: specChars spec ++ s) spec.1 t ∧
      Reads (givenName p) t (· = spec.2.map Text.ofChars) s := by
  obtain ⟨w, given⟩ := spec
  cases given with
  | none =>
      refine ⟨s, (first.begins_append ends.ends).space, ?_⟩
      exact (fails_keyword_of_noWord ends.noWord).bind.optional
  | some o =>
      have eq : ' ' :: specChars (w, some o) ++ s =
          ' ' :: (w ++ ' ' :: ("as".toList ++ ' ' :: (o ++ s))) := by
        rw [specChars, List.cons_append, List.append_assoc]
        rfl
      rw [eq]
      refine ⟨_, (first.begins_append (.of_head (by decide))).space, ?_⟩
      have as : Begins (' ' :: ("as".toList ++ ' ' :: (o ++ s))) "as".toList (' ' :: (o ++ s)) :=
        (IsWord.begins_append (by decide) (.of_head (by decide))).space
      have given : Reads (do keyword "as"; p) (' ' :: ("as".toList ++ ' ' :: (o ++ s)))
          (· = Text.ofChars o) s :=
        (passes_keyword as).bind fun _ _ =>
          reads ((other o rfl).begins_append ends.ends).space
      refine given.optional.mono ?_
      rintro _ ⟨a, rfl, rfl⟩
      rfl

/-- A name in braces that may be exported. -/
structure IsGiven (spec : Spec) : Prop where
  plain : IsPlain spec.1
  other : ∀ o ∈ spec.2, IsWord o

theorem reads_exportSpecifier {spec : Spec} (given : IsGiven spec) (ends : EndsSpec s) :
    Reads exportSpecifier (' ' :: specChars spec ++ s) (· = specPair spec) s := by
  obtain ⟨t, begins, named⟩ := reads_named (p := exportName) given.plain.word given.other ends
    reads_exportName
  refine (reads_typeOnlyAhead begins given.plain).bind ?_
  rintro _ rfl
  refine (reads_exportName begins).bind ?_
  rintro _ rfl
  refine named.bind ?_
  rintro _ rfl
  exact .pure rfl

/-- A name in braces that may be imported. The default needs another name. -/
structure IsTaken (spec : Spec) : Prop where
  given : IsGiven spec
  named : spec.2 = none → spec.1 ≠ "default".toList

theorem reads_importSpecifier {spec : Spec} (taken : IsTaken spec) (ends : EndsSpec s) :
    Reads importSpecifier (' ' :: specChars spec ++ s) (· = specPair spec) s := by
  have plain := taken.given.plain
  obtain ⟨t, begins, named⟩ := reads_named (p := name) plain.word taken.given.other ends reads_name
  unfold importSpecifier
  refine ((fails_keyword begins plain.free.1).bind.test).bind ?_
  rintro _ rfl
  refine (reads_typeOnlyAhead begins plain).bind ?_
  rintro _ rfl
  refine (reads_word begins).test.bind ?_
  rintro _ rfl
  refine (reads_exportName begins).bind ?_
  rintro _ rfl
  refine named.bind ?_
  rintro _ rfl
  refine (passes_guard ?_).bind fun _ _ => .pure rfl
  cases h : spec.2 with
  | none =>
      have ne : Text.ofChars spec.1 ≠ text "default" := fun eq =>
        taken.named h (Text.ofChars_injective eq)
      simp [ne]
  | some => rfl

theorem endsSpec_comma {s : List Char} : EndsSpec (',' :: s) :=
  ⟨.of_head (by decide), by rw [NoWord, front_solid (by decide)]; rfl⟩

theorem endsSpec_brace {s : List Char} : EndsSpec (' ' :: '\x7d' :: s) :=
  ⟨.of_head (by decide), by rw [NoWord, front_space_solid (by decide)]; rfl⟩

/-- Names in braces are read one by one. -/
theorem reads_specifiers {p : Reader (Text × Text)} {spec : Spec} {more : List Spec}
    (each : ∀ spec' ∈ spec :: more, ∀ t, EndsSpec t →
      Reads p (' ' :: specChars spec' ++ t) (· = specPair spec') t) :
    Reads (specifiers p) (' ' :: (bracedChars (spec :: more) ++ s))
      (· = (spec :: more).map specPair) s := by
  obtain ⟨first, each⟩ := List.forall_mem_cons.mp each
  have eq : bracedChars (spec :: more) ++ s = '\x7b' :: (' ' :: specChars spec ++
      (behindCommas specChars more ++ ' ' :: '\x7d' :: s)) := by
    simp only [bracedChars, List.cons_append, List.append_assoc, List.nil_append]
  have follows : EndsSpec (behindCommas specChars more ++ ' ' :: '\x7d' :: s) := by
    cases more with
    | nil => exact endsSpec_brace
    | cons spec' rest => exact endsSpec_comma
  rw [eq]
  refine (passes_mark (front_space_solid (by decide))).bind fun _ _ => ?_
  refine (reads_looseList (R := fun spec' found => specPair spec' = found) (first _ follows)
    (fun spec' mem t ends => (each spec' mem t ends).mono fun _ => Eq.symm)
    (fun _ => endsSpec_comma) endsSpec_brace (fails_mark rfl)).bind ?_
  rintro _ ⟨_, found, rfl, rfl, all⟩
  have same := List.forall₂_map_left_iff.mpr all
  rw [List.forall₂_eq_eq_eq] at same
  refine (passes_mark (front_space_solid (by decide))).bind fun _ _ => .pure ?_
  rw [List.map_cons, same]

/-! ## Exports -/

/-- An export clause as a statement. -/
def exportChars (specs : List Spec) : List Char :=
  "export".toList ++ ' ' :: (bracedChars specs ++ [';'])

theorem noWord_semicolon {s : List Char} : NoWord (';' :: s) := by
  rw [NoWord, front_solid (by decide)]
  rfl

theorem passes_exportClause (clause : Passes (specifiers exportSpecifier) s (';' :: s')) :
    Passes exportClause s s' := by
  refine clause.bind fun _ _ => ?_
  refine (reads_ends (by decide) (by decide)).bind ?_
  rintro _ rfl
  refine (fails_keyword_of_noWord noWord_semicolon).bind.optional.bind ?_
  rintro _ rfl
  exact passes_semicolon.bind fun _ _ => .pure trivial

theorem reads_exportIsName (h : Begins s "export".toList (' ' :: '\x7b' :: t)) :
    Reads exportIsName s (· = false) s := by
  have noWord : NoWord (' ' :: '\x7b' :: t) := by
    rw [NoWord, front_space_solid (by decide)]
    rfl
  refine Fails.test ?_
  refine (passes_keyword h).bind_fails fun _ _ => ?_
  refine (reads_ends_space (by decide) (by decide)).bind_fails ?_
  rintro _ rfl
  refine (reads_lookWord_of_noWord noWord).bind_fails ?_
  rintro _ rfl
  refine (passes_guard rfl).bind_fails fun _ _ => ?_
  refine reads_look.bind_fails ?_
  rintro _ rfl
  rw [front_space_solid (by decide)]
  exact fails_guard (by simp)

theorem passes_item_export {spec : Spec} {more : List Spec}
    (given : ∀ spec' ∈ spec :: more, IsGiven spec') :
    Passes (item g) (exportChars (spec :: more) ++ s) s := by
  have clause : Passes (specifiers exportSpecifier)
      (' ' :: (bracedChars (spec :: more) ++ ';' :: s)) (';' :: s) :=
    (reads_specifiers fun spec' mem _ ends => reads_exportSpecifier (given spec' mem) ends).pass
  obtain ⟨braced, hb⟩ : ∃ braced, bracedChars (spec :: more) = '\x7b' :: braced := ⟨_, rfl⟩
  have eq : exportChars (spec :: more) ++ s =
      "export".toList ++ ' ' :: '\x7b' :: (braced ++ ';' :: s) := by
    unfold exportChars
    simp only [hb, List.cons_append, List.append_assoc, List.nil_append]
  have begins : Begins ("export".toList ++ ' ' :: '\x7b' :: (braced ++ ';' :: s)) "export".toList
      (' ' :: '\x7b' :: (braced ++ ';' :: s)) :=
    IsWord.begins_append (by decide) (.of_head (by decide))
  rw [eq]
  rw [hb] at clause
  have rest : Passes (exportRest g) (' ' :: '\x7b' :: (braced ++ ';' :: s)) s := by
    refine reads_look.bind ?_
    rintro _ rfl
    rw [front_space_solid (by decide)]
    exact passes_exportClause clause
  have statement : Passes (exportStatement g)
      ("export".toList ++ ' ' :: '\x7b' :: (braced ++ ';' :: s)) s := by
    refine (fails_mark_of_word begins "@" ⟨'@', rfl, rfl⟩).bind.bind.optional.bind ?_
    rintro _ rfl
    refine (passes_keyword begins).bind fun _ _ => ?_
    exact rest.bind fun _ _ => (passes_guard (by simp)).bind fun _ _ => .pure trivial
  refine (passes_beginOperand (by rw [begins.eq]; rfl)).bind fun _ _ => ?_
  rw [begins.eq]
  refine (reads_importAhead begins (by decide)).bind ?_
  rintro _ rfl
  refine (reads_aheadWord "export" begins).bind ?_
  rintro _ rfl
  have value : Reads (exportOrValue g) ("export".toList ++ ' ' :: '\x7b' :: (braced ++ ';' :: s))
      (fun found => found.isSome = true) s := by
    refine (reads_exportIsName begins).bind ?_
    rintro _ rfl
    exact statement.bind fun _ _ => .pure rfl
  refine value.bind fun found h => ?_
  obtain ⟨e, rfl⟩ := Option.isSome_iff_exists.mp h
  rintro c rfl
  exact ⟨_, c, rfl, trivial, rfl⟩

/-! ## Imports -/

/-- An import, as it is read before its place is known. -/
abbrev importOf (source : Text) (default object : Option Text) (named : List (Text × Text)) :
    Import :=
  { span := ⟨0, 0⟩, source, default, object, named }

/-- An item is an import, wherever it stands. -/
def Imports (i : Import) (found : Item) : Prop :=
  ∃ span, found = .importing { i with span }

/-- An import statement. -/
theorem reads_item_import {i : Import} (ends : EndsWord s)
    (head : ∃ c ∈ (front s).head?, c ∉ ['(', '.', '<'])
    (body : Reads importBody s (· = some i) (';' :: t)) :
    Reads (item g) ("import".toList ++ s) (Imports i) t := by
  have begins : Begins ("import".toList ++ s) "import".toList s :=
    IsWord.begins_append (by decide) ends
  have noMark (m : String) (c : Char) (one : m.toList = [c]) (mem : c ∈ ['(', '.', '<']) :
      m.toList.isPrefixOf (front s) = false := by
    obtain ⟨d, hd, ne⟩ := head
    have differ : c ≠ d := by
      rintro rfl
      exact ne mem
    rw [one]
    generalize front s = rest at hd
    cases rest with
    | nil => cases hd
    | cons d rest =>
        cases hd
        simp [List.isPrefixOf, differ]
  have ahead : Reads importAhead ("import".toList ++ s) (· = true) ("import".toList ++ s) := by
    refine Reads.test (P := fun _ => True) (t := s) ?_
    refine (passes_keyword begins).bind fun _ _ => ?_
    refine (reads_ahead "(").bind ?_
    rintro _ rfl
    refine (reads_ahead ".").bind ?_
    rintro _ rfl
    refine (reads_ahead "<").bind ?_
    rintro _ rfl
    rw [noMark "(" '(' rfl (by decide), noMark "." '.' rfl (by decide),
      noMark "<" '<' rfl (by decide)]
    exact passes_guard rfl
  have statement : Reads (importStatement g) ("import".toList ++ s)
      (fun found => ∃ span, found = some { i with span }) t := by
    refine passes_begin.bind fun _ _ => ?_
    rw [begins.eq]
    refine (passes_keyword begins).bind fun _ _ => ?_
    refine body.bind ?_
    rintro _ rfl
    refine (reads_ends (by decide) (by decide)).bind ?_
    rintro _ rfl
    refine ((fails_keyword_of_noWord noWord_semicolon).bind.skipOptional).bind fun _ _ => ?_
    refine passes_semicolon.bind fun _ _ => ?_
    intro c hc
    exact ⟨_, c, rfl, ⟨_, rfl⟩, hc⟩
  refine (passes_beginOperand (by rw [begins.eq]; rfl)).bind fun _ _ => ?_
  rw [begins.eq]
  refine ahead.bind ?_
  rintro _ rfl
  refine statement.bind ?_
  rintro _ ⟨span, rfl⟩
  exact .pure ⟨span, rfl⟩

/-- An import statement that names only its source. -/
def sourceChars (source : Text) : List Char :=
  "import".toList ++ ' ' :: ((Json.renderString true source).toCharsD ++ [';'])

theorem front_literal (source : Text) :
    front (' ' :: ((Json.renderString true source).toCharsD ++ t)) =
      (Json.renderString true source).toCharsD ++ t :=
  front_space_solid (by decide)

theorem noWord_literal (source : Text) :
    NoWord (' ' :: ((Json.renderString true source).toCharsD ++ t)) := by
  rw [NoWord, front_literal]
  rfl

theorem reads_item_source (source : Text) :
    Reads (item g) (sourceChars source ++ s)
      (Imports (importOf (literalText source) none none [])) s := by
  have eq : sourceChars source ++ s =
      "import".toList ++ ' ' :: ((Json.renderString true source).toCharsD ++ ';' :: s) := by
    unfold sourceChars
    simp only [List.cons_append, List.append_assoc, List.nil_append]
  have noWord := noWord_literal (t := ';' :: s) source
  rw [eq]
  refine reads_item_import (.of_head (by decide)) ⟨'"', ?_, by decide⟩ ?_
  · rw [front_literal]
    exact rfl
  · refine (fails_keyword_of_noWord noWord).bind.test.bind ?_
    rintro _ rfl
    refine ((fails_keyword_of_noWord noWord).orElse (fails_keyword_of_noWord noWord)).test.bind ?_
    rintro _ rfl
    refine .left (.left ((reads_literal (front_literal source)).bind fun site same => .pure ?_))
    rw [same]

/-- An import statement that names what it takes from its source. -/
def fromChars (clause : List Char) (source : Text) : List Char :=
  "import".toList ++ ' ' :: (clause ++ ' ' :: ("from".toList ++ ' ' ::
    ((Json.renderString true source).toCharsD ++ [';'])))

/-- A clause is none of the words that make an import one of types, and no literal. -/
structure BeginsClause (s : List Char) : Prop where
  type : Fails (keyword "type") s
  typeof : Fails (keyword "typeof") s
  head : ∃ c ∈ (front s).head?, c ∉ ['(', '.', '<', '"', '\'']

theorem string?_eq_none {c : Char} (head : c ∈ s.head?) (quotes : c ≠ '"' ∧ c ≠ '\'') :
    string? s = none := by
  unfold string?
  split
  · cases head
    exact absurd rfl quotes.1
  · cases head
    exact absurd rfl quotes.2
  · rfl

theorem reads_item_from {clause : List Char} {source : Text} {default object : Option Text}
    {named : List (Text × Text)} (begins : ∀ t, BeginsClause (' ' :: (clause ++ ' ' :: t)))
    (reads : ∀ t, Reads importClause (' ' :: (clause ++ ' ' :: ("from".toList ++ ' ' :: t)))
      (· = importOf [] default object named) (' ' :: ("from".toList ++ ' ' :: t))) :
    Reads (item g) (fromChars clause source ++ s)
      (Imports (importOf (literalText source) default object named)) s := by
  have eq : fromChars clause source ++ s = "import".toList ++ ' ' :: (clause ++ ' ' ::
      ("from".toList ++ ' ' :: ((Json.renderString true source).toCharsD ++ ';' :: s))) := by
    unfold fromChars
    simp only [List.cons_append, List.append_assoc, List.nil_append]
  have begins := begins ("from".toList ++ ' ' :: ((Json.renderString true source).toCharsD ++ ';' :: s))
  have reads := reads ((Json.renderString true source).toCharsD ++ ';' :: s)
  obtain ⟨c, head, free⟩ := begins.head
  rw [eq]
  refine reads_item_import (.of_head (by decide)) ⟨c, head, fun mem => free ?_⟩ ?_
  · exact List.mem_append_left ['"', '\''] mem
  · refine begins.type.bind.test.bind ?_
    rintro _ rfl
    refine (begins.type.orElse begins.typeof).test.bind ?_
    rintro _ rfl
    refine .left (.right (fails_string (string?_eq_none head ?_)).bind ?_)
    · constructor
      all_goals
        rintro rfl
        exact free (by decide)
    · refine reads.bind ?_
      rintro _ rfl
      have word : Begins (' ' :: ("from".toList ++ ' ' ::
          ((Json.renderString true source).toCharsD ++ ';' :: s))) "from".toList
          (' ' :: ((Json.renderString true source).toCharsD ++ ';' :: s)) :=
        (IsWord.begins_append (by decide) (.of_head (by decide))).space
      have from' : Reads fromSource (' ' :: ("from".toList ++ ' ' ::
          ((Json.renderString true source).toCharsD ++ ';' :: s))) (· = literalText source)
          (';' :: s) := by
        refine (passes_keyword word).bind fun _ _ => ?_
        exact (reads_literal (front_literal source)).bind fun _ same => .pure same
      refine from'.bind ?_
      rintro _ rfl
      exact .pure rfl

theorem beginsClause_of_noWord {c : Char} (eq : front s = c :: t) (noWord : wordLength (c :: t) = 0)
    (free : c ∉ ['(', '.', '<', '"', '\'']) : BeginsClause s := by
  have noWord : NoWord s := by rwa [NoWord, eq]
  refine ⟨fails_keyword_of_noWord noWord, fails_keyword_of_noWord noWord, c, ?_, free⟩
  rw [eq]
  exact rfl

theorem beginsClause_of_word (h : Begins s w t) (plain : IsPlain w) : BeginsClause s := by
  refine ⟨fails_keyword h plain.free.1, fails_keyword h plain.free.2, ?_⟩
  obtain ⟨c, hc, -⟩ := h.word.begins
  rw [h.eq]
  cases w with
  | nil => cases hc
  | cons c rest =>
      refine ⟨c, rfl, fun mem => ?_⟩
      have part := h.word.parts c List.mem_cons_self
      revert mem part
      generalize c = d
      simp only [List.mem_cons, List.not_mem_nil, or_false]
      rintro (rfl | rfl | rfl | rfl | rfl) part
      all_goals cases part

/-- The clause of an import that takes everything as one object. -/
def wholeChars (name : List Char) : List Char :=
  '*' :: ' ' :: ("as".toList ++ ' ' :: name)

theorem reads_item_whole {name : List Char} {source : Text} (word : IsWord name) :
    Reads (item g) (fromChars (wholeChars name) source ++ s)
      (Imports (importOf (literalText source) none (some (Text.ofChars name)) [])) s := by
  have eq (t : List Char) : ' ' :: (wholeChars name ++ ' ' :: t) =
      ' ' :: '*' :: ' ' :: ("as".toList ++ ' ' :: (name ++ ' ' :: t)) := by
    unfold wholeChars
    simp only [List.cons_append, List.append_assoc]
  have star (t : List Char) : front (' ' :: '*' :: t) = '*' :: t :=
    front_space_solid (by decide)
  refine reads_item_from (fun t => ?_) fun t => ?_
  · rw [eq]
    exact beginsClause_of_noWord (star _) rfl (by decide)
  · rw [eq]
    have first : Begins (' ' :: ("as".toList ++ ' ' :: (name ++ ' ' :: ("from".toList ++ ' ' :: t))))
        "as".toList (' ' :: (name ++ ' ' :: ("from".toList ++ ' ' :: t))) :=
      (IsWord.begins_append (by decide) (.of_head (by decide))).space
    have second : Begins (' ' :: (name ++ ' ' :: ("from".toList ++ ' ' :: t))) name
        (' ' :: ("from".toList ++ ' ' :: t)) :=
      (word.begins_append (.of_head (by decide))).space
    have whole : Reads wholeModule (' ' :: '*' :: ' ' :: ("as".toList ++ ' ' :: (name ++ ' ' ::
        ("from".toList ++ ' ' :: t)))) (· = Text.ofChars name) (' ' :: ("from".toList ++ ' ' :: t)) := by
      refine (passes_mark (star _)).bind fun _ _ => ?_
      exact (passes_keyword first).bind fun _ _ => reads_name second
    refine .left (.left (whole.bind ?_))
    rintro _ rfl
    exact .pure rfl

theorem reads_importSpecifiers {spec : Spec} {more : List Spec}
    (taken : ∀ spec' ∈ spec :: more, IsTaken spec') :
    Reads (specifiers importSpecifier) (' ' :: (bracedChars (spec :: more) ++ s))
      (· = (spec :: more).map specPair) s :=
  reads_specifiers fun spec' mem _ ends => reads_importSpecifier (taken spec' mem) ends

theorem front_braced (specs : List Spec) (s : List Char) :
    ∃ t, front (' ' :: (bracedChars specs ++ s)) = '\x7b' :: t := by
  obtain ⟨t, eq⟩ : ∃ t, bracedChars specs = '\x7b' :: t := by
    cases specs <;> exact ⟨_, rfl⟩
  rw [eq, List.cons_append, front_space_solid (by decide)]
  exact ⟨_, rfl⟩

theorem fails_wholeModule_of_braced {specs : List Spec} :
    Fails wholeModule (' ' :: (bracedChars specs ++ s)) := by
  obtain ⟨t, eq⟩ := front_braced specs s
  exact (fails_mark (by rw [eq]; rfl)).bind

theorem reads_item_named {spec : Spec} {more : List Spec}
    {source : Text} (taken : ∀ spec' ∈ spec :: more, IsTaken spec') :
    Reads (item g) (fromChars (bracedChars (spec :: more)) source ++ s)
      (Imports (importOf (literalText source) none none ((spec :: more).map specPair))) s := by
  refine reads_item_from (fun t => ?_) fun t => ?_
  · obtain ⟨u, eq⟩ := front_braced (spec :: more) (' ' :: t)
    exact beginsClause_of_noWord eq rfl (by decide)
  · refine .left (.right fails_wholeModule_of_braced.bind ?_)
    refine (reads_importSpecifiers taken).bind ?_
    rintro _ rfl
    exact .pure rfl

/-- The clause of an import that takes the default, and perhaps names in braces. -/
def defaultChars (name : List Char) : List Spec → List Char
  | [] => name
  | specs => name ++ ',' :: ' ' :: bracedChars specs

theorem reads_item_default {name : List Char} {specs : List Spec}
    {source : Text} (plain : IsPlain name) (taken : ∀ spec ∈ specs, IsTaken spec) :
    Reads (item g) (fromChars (defaultChars name specs) source ++ s) (Imports (importOf
      (literalText source) (some (Text.ofChars name)) none (specs.map specPair))) s := by
  have begins (t : List Char) : ∃ u, Begins (' ' :: (defaultChars name specs ++ ' ' :: t)) name u ∧
      (specs = [] ∧ u = ' ' :: t ∨
        specs ≠ [] ∧ u = ',' :: ' ' :: (bracedChars specs ++ ' ' :: t)) := by
    cases specs with
    | nil => exact ⟨_, (plain.word.begins_append (.of_head (by decide))).space, .inl ⟨rfl, rfl⟩⟩
    | cons spec more =>
        simp only [defaultChars, List.append_assoc, List.cons_append]
        exact ⟨_, (plain.word.begins_append (.of_head (by decide))).space,
          .inr ⟨List.cons_ne_nil _ _, rfl⟩⟩
  refine reads_item_from (fun t => ?_) fun t => ?_
  · obtain ⟨u, h, -⟩ := begins t
    exact beginsClause_of_word h plain
  · obtain ⟨u, h, cases⟩ := begins ("from".toList ++ ' ' :: t)
    have noStar : Fails wholeModule (' ' :: (defaultChars name specs ++ ' ' ::
        ("from".toList ++ ' ' :: t))) :=
      (fails_mark_of_word h "*" ⟨'*', rfl, rfl⟩).bind
    have noBrace : Fails (specifiers importSpecifier) (' ' :: (defaultChars name specs ++ ' ' ::
        ("from".toList ++ ' ' :: t))) :=
      (fails_mark_of_word h "\x7b" ⟨'\x7b', rfl, rfl⟩).bind
    refine .right (noStar.bind.orElse noBrace.bind) ((reads_name h).bind ?_)
    rintro _ rfl
    rcases cases with ⟨rfl, rfl⟩ | ⟨some, rfl⟩
    · have noComma : Fails (mark ",") (' ' :: ("from".toList ++ ' ' :: t)) :=
        fails_mark_of_word (IsWord.begins_append (by decide) (.of_head (by decide))).space ","
          ⟨',', rfl, rfl⟩
      refine noComma.bind.optional.bind ?_
      rintro _ rfl
      exact .pure rfl
    · obtain ⟨spec, more, rfl⟩ := List.exists_cons_of_ne_nil some
      refine Reads.bind (Reads.optional
        (P := (· = importOf [] none none ((spec :: more).map specPair))) ?_)
        fun | _, ⟨_, rfl, rfl⟩ => .pure rfl
      refine (passes_mark (front_solid (by decide))).bind fun _ _ => ?_
      refine .right fails_wholeModule_of_braced.bind ?_
      refine (reads_importSpecifiers taken).bind ?_
      rintro _ rfl
      exact .pure rfl

end Playground.Source
