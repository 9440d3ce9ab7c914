import Mathlib.Data.Set.Card
import Playground.Json.Lenient

/-!
# Where a value offends

What another program writes has to be of some form: a record of fields, lists of such
records, and at the leaves texts and integers. A field that is required may be missing,
and any value may be of the wrong kind, also one that is an item of a list or a list
itself. A value offends in each place where one of these is the case.

Reading a record counts offences as it goes and adds up what the parts of the record
count. Here the places are described without any reader, as a set of paths into the
value, and the count is shown to be the size of that set. Paths into different parts
differ in their first step, so the sets of the parts are disjoint.
-/

namespace Playground.Json

/-! ## Forms -/

/-- What a value has to be. A field of a record may go by several names. -/
inductive Form where
  | text
  /-- Anything that can be taken for an integer. -/
  | integer
  | list (item : Form)
  | record (fields : List (List String × Form))

/-- A field that is a list may be missing. -/
def Form.IsRequired : Form → Prop
  | list _ => False
  | _ => True

/-- A step into a value. -/
inductive Step where
  | field (names : List String)
  | item (i : Nat)
deriving DecidableEq

/-- None of the names is a field. -/
def Absent (fields : List (Text × Json)) (names : List String) : Prop :=
  ∀ name ∈ names, field? fields (text name) = none

/-- The first of the names that is a field has this value. -/
def Stands (fields : List (Text × Json)) (names : List String) (v : Json) : Prop :=
  ∃ before name after, names = before ++ name :: after ∧ field? fields (text name) = some v ∧
    Absent fields before

/-- A value offends against a form in the place to which a path leads. -/
inductive Offends : Form → Json → List Step → Prop where
  | text {v : Json} (other : ∀ t, v ≠ .str t) : Offends .text v []
  | integer {v : Json} (other : lenientInteger? v = none) : Offends .integer v []
  | list {form : Form} {v : Json} (other : ∀ items, v ≠ .arr items) (given : v ≠ .null) :
      Offends (.list form) v []
  | item {form : Form} {items : List Json} {i : Nat} {v : Json} {path : List Step}
      (found : items[i]? = some v) (below : Offends form v path) :
      Offends (.list form) (.arr items) (.item i :: path)
  | record {forms : List (List String × Form)} {v : Json} (other : ∀ fields, v ≠ .obj fields) :
      Offends (.record forms) v []
  | missing {forms : List (List String × Form)} {fields : List (Text × Json)}
      {names : List String} {form : Form} (known : (names, form) ∈ forms)
      (required : form.IsRequired) (absent : Absent fields names) :
      Offends (.record forms) (.obj fields) [.field names]
  | field {forms : List (List String × Form)} {fields : List (Text × Json)}
      {names : List String} {form : Form} {v : Json} {path : List Step}
      (known : (names, form) ∈ forms) (found : Stands fields names v)
      (below : Offends form v path) :
      Offends (.record forms) (.obj fields) (.field names :: path)

/-- The places in which a value offends. -/
def places (form : Form) (v : Json) : Set (List Step) :=
  { path | Offends form v path }

/-- The places in which a record offends in one of its fields. -/
def fieldPlaces (fields : List (Text × Json)) (names : List String) (form : Form) :
    Set (List Step) :=
  { path | (form.IsRequired ∧ Absent fields names ∧ path = [.field names]) ∨
    ∃ v, Stands fields names v ∧ ∃ below ∈ places form v, path = .field names :: below }

/-- The places in which a record offends in some of its fields. -/
def recordPlaces (fields : List (Text × Json)) (forms : List (List String × Form)) :
    Set (List Step) :=
  { path | ∃ field ∈ forms, path ∈ fieldPlaces fields field.1 field.2 }

/-- The places in which a list offends in its items, numbered from `start`. -/
def itemPlaces (form : Form) (start : Nat) (items : List Json) : Set (List Step) :=
  { path | ∃ i v, items[i]? = some v ∧ ∃ below ∈ places form v, path = .item (start + i) :: below }

variable {α β : Type} {form : Form} {fields : List (Text × Json)} {names : List String} {v : Json}

/-! ## Names -/

theorem firstField?_eq_some_iff : firstField? fields names = some v ↔ Stands fields names v :=
  List.findSome?_eq_some_iff

theorem firstField?_eq_none_iff : firstField? fields names = none ↔ Absent fields names :=
  List.findSome?_eq_none_iff

theorem Stands.not_absent (h : Stands fields names v) : ¬ Absent fields names := by
  rw [← firstField?_eq_none_iff, firstField?_eq_some_iff.mpr h]
  nofun

theorem Stands.unique {w : Json} (h : Stands fields names v) (h' : Stands fields names w) : v = w :=
  Option.some.inj ((firstField?_eq_some_iff.mpr h).symm.trans (firstField?_eq_some_iff.mpr h'))

/-! ## Counting -/

/-- What was read counts the places of a set, and nothing is read if there are any. -/
structure Counts (S : Set (List Step)) (c : Checked α) : Prop where
  encard : S.encard = c.offences
  pos : ∀ n, c = .error n → 0 < n

/-- A reader counts the places in which a value offends. -/
def Checks (form : Form) (read : Json → Checked α) : Prop :=
  ∀ v, Counts (places form v) (read v)

namespace Counts

variable {S T : Set (List Step)} {a : Checked α} {b : Checked β}

theorem ok {x : α} (h : S = ∅) : Counts S (.ok x : Checked α) where
  encard := by
    rw [h, Set.encard_empty]
    rfl
  pos _ h := by cases h

theorem one {path : List Step} (h : S = {path}) : Counts S (.error 1 : Checked α) where
  encard := by
    rw [h, Set.encard_singleton]
    rfl
  pos _ h := by
    cases h
    exact Nat.one_pos

theorem map (h : Counts S a) (f : α → β) : Counts S (a.map f) := by
  cases a with
  | ok x => exact ⟨h.encard, fun _ h => by cases h⟩
  | error n => exact ⟨h.encard, fun _ same => by cases same; exact h.pos n rfl⟩

theorem offences_pos (h : Counts S a) : (∃ x, a = .ok x) ∨ 0 < a.offences := by
  cases a with
  | ok x => exact .inl ⟨x, rfl⟩
  | error n => exact .inr (h.pos n rfl)

theorem offences_both (a : Checked α) (b : Checked β) :
    (Checked.both a b).offences = a.offences + b.offences := by
  cases a <;> cases b <;> rfl

/-- The offences of two parts add up, because no place is in both of them. -/
theorem both (h : Counts S a) (h' : Counts T b) (apart : ∀ path ∈ S, path ∉ T) :
    Counts (S ∪ T) (Checked.both a b) where
  encard := by
    rw [Set.encard_union_eq (Set.disjoint_left.mpr apart), h.encard, h'.encard, offences_both,
      Nat.cast_add]
  pos n error := by
    have sum : (Checked.both a b).offences = n := congrArg Checked.offences error
    rw [offences_both] at sum
    rcases h.offences_pos with ⟨x, rfl⟩ | first
    · rcases h'.offences_pos with ⟨y, rfl⟩ | second
      · cases error
      · omega
    · omega

/-- One step more makes no difference to the number of places. -/
theorem below (h : Counts S a) (step : Step) : Counts ((step :: ·) '' S) a where
  encard := by rw [(List.cons_injective).encard_image, h.encard]
  pos := h.pos

theorem iff (h : Counts S a) {n : Nat} : a = .error n ↔ 0 < n ∧ S.encard = n := by
  rw [h.encard, Nat.cast_inj]
  constructor
  · rintro rfl
    exact ⟨h.pos n rfl, rfl⟩
  · rintro ⟨pos, rfl⟩
    cases a with
    | ok x => cases pos
    | error n => rfl

end Counts

/-! ## Fields -/

theorem places_obj (forms : List (List String × Form)) :
    places (.record forms) (.obj fields) = recordPlaces fields forms := by
  ext path
  constructor
  · intro h
    cases h with
    | record other => exact absurd rfl (other fields)
    | missing known required absent => exact ⟨_, known, .inl ⟨required, absent, rfl⟩⟩
    | field known found below => exact ⟨_, known, .inr ⟨_, found, _, below, rfl⟩⟩
  · rintro ⟨⟨names, form⟩, known, ⟨required, absent, rfl⟩ | ⟨v, found, below, offends, rfl⟩⟩
    · exact .missing known required absent
    · exact .field known found offends

theorem places_of_not_obj {forms : List (List String × Form)} (v : Json)
    (other : ∀ fields, v ≠ .obj fields) :
    places (.record forms) v = {[]} := by
  ext path
  constructor
  · intro h
    cases h with
    | record => rfl
    | missing | field => exact absurd rfl (other _)
  · rintro rfl
    exact .record other

theorem exists_tail_of_mem_fieldPlaces {path : List Step} (h : path ∈ fieldPlaces fields names form) :
    ∃ below, path = .field names :: below := by
  rcases h with ⟨-, -, rfl⟩ | ⟨_, -, below, -, rfl⟩
  · exact ⟨[], rfl⟩
  · exact ⟨below, rfl⟩

/-- Fields of different names have no places in common. -/
theorem disjoint_fieldPlaces {names' : List String} {form' : Form} (other : names ≠ names') :
    ∀ path ∈ fieldPlaces fields names form, path ∉ fieldPlaces fields names' form' := by
  intro path h h'
  obtain ⟨below, rfl⟩ := exists_tail_of_mem_fieldPlaces h
  obtain ⟨below', same⟩ := exists_tail_of_mem_fieldPlaces h'
  cases same
  exact other rfl

theorem fieldPlaces_of_stands (found : Stands fields names v) :
    fieldPlaces fields names form = (Step.field names :: ·) '' places form v := by
  ext path
  constructor
  · rintro (⟨-, absent, -⟩ | ⟨w, found', below, offends, rfl⟩)
    · exact absurd absent found.not_absent
    · exact ⟨below, found.unique found' ▸ offends, rfl⟩
  · rintro ⟨below, offends, rfl⟩
    exact .inr ⟨v, found, below, offends, rfl⟩

theorem fieldPlaces_of_absent (absent : Absent fields names) : fieldPlaces fields names form =
    { path | form.IsRequired ∧ path = [.field names] } := by
  ext path
  constructor
  · rintro (⟨required, -, rfl⟩ | ⟨_, found, -⟩)
    · exact ⟨required, rfl⟩
    · exact absurd absent found.not_absent
  · rintro ⟨required, rfl⟩
    exact .inl ⟨required, absent, rfl⟩

/-- A reader of scalars and the form that it reads: what it does not take offends as a whole. -/
structure Takes (form : Form) (read : Json → Option α) : Prop where
  required : form.IsRequired
  offends : ∀ v path, Offends form v path ↔ path = [] ∧ read v = none

theorem takes_text : Takes .text text? where
  required := trivial
  offends v path := by
    constructor
    · intro h
      cases h with
      | text other =>
          refine ⟨rfl, ?_⟩
          cases v with
          | str t => exact absurd rfl (other t)
          | null | bool | int | num | arr | obj => rfl
    · rintro ⟨rfl, none⟩
      refine .text fun t same => ?_
      rw [same] at none
      cases none

theorem takes_integer : Takes .integer lenientInteger? where
  required := trivial
  offends v path := by
    constructor
    · intro h
      cases h with
      | integer other => exact ⟨rfl, other⟩
    · rintro ⟨rfl, other⟩
      exact .integer other

theorem Takes.counts {read : Json → Option α} (h : Takes form read) (v : Json) :
    Counts (places form v) (Checked.ofOption (read v)) := by
  cases taken : read v with
  | none =>
      have whole : places form v = {[]} :=
        Set.ext fun path => (h.offends v path).trans (and_iff_left taken)
      exact .one whole
  | some a =>
      refine .ok (Set.eq_empty_of_forall_notMem fun path offends => ?_)
      rw [((h.offends v path).mp offends).2] at taken
      cases taken

/-- A required field counts as one if it is missing, and otherwise as its value does. -/
theorem Takes.counts_required {read : Json → Option α} (h : Takes form read) :
    Counts (fieldPlaces fields names form) (Json.required fields names read) := by
  unfold Json.required
  cases found : firstField? fields names with
  | none =>
      rw [fieldPlaces_of_absent (firstField?_eq_none_iff.mp found)]
      exact .one (Set.ext fun path => and_iff_right h.required)
  | some v =>
      rw [fieldPlaces_of_stands (firstField?_eq_some_iff.mp found)]
      exact (h.counts v).below _

/-! ## Lists -/

theorem itemPlaces_cons (start : Nat) (v : Json) (items : List Json) :
    itemPlaces form start (v :: items) =
      (Step.item start :: ·) '' places form v ∪ itemPlaces form (start + 1) items := by
  ext path
  constructor
  · rintro ⟨i, w, found, below, offends, rfl⟩
    cases i with
    | zero =>
        cases found
        exact .inl ⟨below, offends, rfl⟩
    | succ i =>
        rw [List.getElem?_cons_succ] at found
        exact .inr ⟨i, w, found, below, offends, by rw [Nat.add_assoc, Nat.add_comm 1]⟩
  · rintro (⟨below, offends, rfl⟩ | ⟨i, w, found, below, offends, rfl⟩)
    · exact ⟨0, v, rfl, below, offends, rfl⟩
    · exact ⟨i + 1, w, found, below, offends, by rw [Nat.add_assoc, Nat.add_comm 1]⟩

theorem Checked.all_cons {a : Checked α} {rest : List (Checked α)} :
    Checked.all (a :: rest) = (Checked.both a (Checked.all rest)).map fun p => p.1 :: p.2 := by
  rw [Checked.all]
  cases Checked.both a (Checked.all rest) <;> rfl

/-- The offences of the items of a list add up, because each item has a number of its own. -/
theorem Checks.counts_all {read : Json → Checked α} (h : Checks form read) (start : Nat)
    (items : List Json) :
    Counts (itemPlaces form start items) (Checked.all (items.map read)) := by
  induction items generalizing start with
  | nil => exact .ok (Set.eq_empty_of_forall_notMem fun path ⟨_, _, found, _⟩ => by cases found)
  | cons v items ih =>
      have apart : ∀ path ∈ (Step.item start :: ·) '' places form v,
          path ∉ itemPlaces form (start + 1) items := by
        rintro path ⟨_, _, first⟩ ⟨i, _, _, _, _, later⟩
        have numbers := List.cons.inj (first.trans later)
        have := Step.item.inj numbers.1
        omega
      rw [itemPlaces_cons, List.map_cons, Checked.all_cons]
      exact (((h v).below (.item start)).both (ih (start + 1)) apart).map _

theorem places_arr (items : List Json) :
    places (.list form) (.arr items) = itemPlaces form 0 items := by
  ext path
  constructor
  · intro h
    cases h with
    | list other => exact absurd rfl (other items)
    | item found below => exact ⟨_, _, found, _, below, by rw [Nat.zero_add]⟩
  · rintro ⟨i, v, found, below, offends, rfl⟩
    rw [Nat.zero_add]
    exact .item found offends

theorem places_null : places (.list form) .null = ∅ := by
  refine Set.eq_empty_of_forall_notMem fun path h => ?_
  cases h with
  | list _ given => exact given rfl

theorem places_of_not_arr (v : Json) (other : ∀ items, v ≠ .arr items) (given : v ≠ .null) :
    places (.list form) v = {[]} := by
  ext path
  constructor
  · intro h
    cases h with
    | list => rfl
    | item => exact absurd rfl (other _)
  · rintro rfl
    exact .list other given

/-- A list may be missing or null; otherwise it is one place, or its items have the places. -/
theorem Checks.counts_listOf {read : Json → Checked α} (h : Checks form read) :
    Counts (fieldPlaces fields names (.list form)) (listOf fields names read) := by
  unfold listOf
  cases found : firstField? fields names with
  | none =>
      rw [fieldPlaces_of_absent (firstField?_eq_none_iff.mp found)]
      exact .ok (Set.eq_empty_of_forall_notMem fun path mem => mem.1)
  | some v =>
      rw [fieldPlaces_of_stands (firstField?_eq_some_iff.mp found)]
      cases v with
      | null => exact .ok (by rw [places_null, Set.image_empty])
      | arr items =>
          rw [places_arr]
          exact (h.counts_all 0 items).below _
      | bool b | int n | num x | str t | obj fields' =>
          rw [places_of_not_arr _ (fun _ same => by cases same) (fun same => by cases same)]
          exact .one Set.image_singleton

/-! ## Records -/

/-- A record counts what its fields count, and what is no record counts as one. -/
theorem checks_record {forms : List (List String × Form)}
    {read : List (Text × Json) → Checked α}
    (parts : ∀ fields, Counts (recordPlaces fields forms) (read fields)) :
    Checks (.record forms) (record read) := by
  intro v
  cases v with
  | obj fields =>
      rw [places_obj]
      exact parts fields
  | null | bool | int | num | str | arr =>
      rw [places_of_not_obj _ fun _ same => by cases same]
      exact .one rfl

theorem Counts.single {a : Checked α} (h : Counts (fieldPlaces fields names form) a) :
    Counts (recordPlaces fields [(names, form)]) a := by
  have same : recordPlaces fields [(names, form)] = fieldPlaces fields names form :=
    Set.ext fun path => by simp [recordPlaces]
  rwa [same]

/-- Some fields and some others, of other names. -/
theorem Counts.append {forms forms' : List (List String × Form)} {a : Checked α} {b : Checked β}
    (h : Counts (recordPlaces fields forms) a) (h' : Counts (recordPlaces fields forms') b)
    (other : ∀ f ∈ forms.map Prod.fst, ∀ f' ∈ forms'.map Prod.fst, f ≠ f') :
    Counts (recordPlaces fields (forms ++ forms')) (Checked.both a b) := by
  have apart : ∀ path ∈ recordPlaces fields forms, path ∉ recordPlaces fields forms' := by
    rintro path ⟨f, hf, mem⟩ ⟨f', hf', mem'⟩
    have names := other _ (List.mem_map_of_mem hf) _ (List.mem_map_of_mem hf')
    exact disjoint_fieldPlaces names path mem mem'
  have union : recordPlaces fields (forms ++ forms') =
      recordPlaces fields forms ∪ recordPlaces fields forms' :=
    Set.ext fun path => by simp [recordPlaces, or_and_right, exists_or]
  rw [union]
  exact h.both h' apart

end Playground.Json
