import Playground.Proofs.Json.Acceptance
import Playground.Proofs.Json.Strings

/-!
# What is written as JSON is read back

What the writer makes of a value is JSON of that value, and the reader reads
whatever is JSON. So nothing has to be said about the reader here. The induction is
on the evidence that a value is legible, and for the parts of an array or an object
it is on the list of them.

How deep values nest is a part of being legible, because the grammar has a limit for it.
Numbers are left out. A number of double precision is rounded when it is read.
-/

namespace Playground

theorem Ordered.put_of_not_mem {κ α : Type} [DecidableEq κ] {key : κ} (value : α)
    {entries : List (κ × α)} (h : key ∉ entries.map Prod.fst) :
    put key value entries = entries ++ [(key, value)] := by
  induction entries with
  | nil => rfl
  | cons entry entries ih =>
      obtain ⟨k, v⟩ := entry
      rw [put, if_neg (List.ne_of_not_mem_cons h).symm,
        ih (List.not_mem_of_not_mem_cons h)]
      rfl

namespace Json

variable {style : Style} {level depth : Nat} {b : Text}

/-! ## Blanks -/

/-- Reading on after `b` is reading on without it. -/
def Blanks (b : Text) : Prop := ∀ t, skipBlanks (b ++ t) = skipBlanks t

theorem blanks_iff_isSpace : Blanks b ↔ IsSpace b := by
  refine ⟨fun blanks => ?_, skipBlanks_append⟩
  obtain ⟨b', space, all⟩ := exists_space_of_eq (blanks [])
  rw [List.append_nil] at all
  exact all ▸ space.append .nil

theorem isSpace_lineBreak (style : Style) (level : Nat) : IsSpace (lineBreak style level) := by
  unfold lineBreak
  split
  · exact .nil
  · refine List.forall_mem_cons.mpr ⟨.inr (.inl rfl), fun _ indent => .inl ?_⟩
    rw [List.eq_of_mem_replicate indent]
    rfl

/-- The signs between values are set apart by nothing but blanks. -/
structure Style.Separates (style : Style) : Prop where
  comma : ∃ b, Blanks b ∧ style.comma = CodePoint.ofChar ',' :: b
  colon : ∃ b, Blanks b ∧ style.colon = CodePoint.ofChar ':' :: b

theorem Style.compact_separates : Style.compact.Separates :=
  ⟨⟨[], fun _ => rfl, rfl⟩, ⟨[], fun _ => rfl, rfl⟩⟩

theorem Style.spaced_separates : Style.spaced.Separates :=
  ⟨⟨[CodePoint.ofChar ' '], fun _ => rfl, rfl⟩, ⟨[CodePoint.ofChar ' '], fun _ => rfl, rfl⟩⟩

theorem Style.indented_separates : Style.indented.Separates :=
  ⟨⟨[], fun _ => rfl, rfl⟩, ⟨[CodePoint.ofChar ' '], fun _ => rfl, rfl⟩⟩

/-! ## Lists of values -/

theorem hasItems_render (sep : style.Separates) {item : Json} {items : List Json}
    (written : ∀ value ∈ item :: items, Written depth value (renderAt style level value))
    (space : IsSpace b) : HasItems depth (item :: items)
      (renderAt style level item ++ (renderItems style level items ++ b)) := by
  induction items generalizing item with
  | nil =>
      exact @HasItems.one depth ⟨item, [], renderAt style level item, b⟩ ⟨.nil, space⟩
        (written item List.mem_cons_self)
  | cons next items ih =>
      obtain ⟨b', blanks, comma⟩ := sep.comma
      obtain ⟨first, written⟩ := List.forall_mem_cons.mp written
      have later := ((ih written).indent (isSpace_lineBreak style level)).indent
        (blanks_iff_isSpace.mp blanks)
      have all := @HasItems.cons depth _ _ ⟨item, [], renderAt style level item, []⟩
        ⟨.nil, .nil⟩ first later
      simpa only [renderItems, comma, Item.text, List.cons_append, List.append_assoc,
        List.nil_append] using all

theorem put_of_nodup {name : Text} {value : Json} {fields before : List (Text × Json)}
    (names : ((before ++ (name, value) :: fields).map Prod.fst).Nodup) :
    Ordered.put name value before = before ++ [(name, value)] := by
  rw [List.map_append, List.nodup_append] at names
  refine Ordered.put_of_not_mem value fun h => ?_
  exact names.2.2 name h name List.mem_cons_self rfl

theorem hasFields_render (sep : style.Separates) {name : Text} {value : Json}
    {fields before : List (Text × Json)}
    (legible : ∀ field ∈ (name, value) :: fields, LegibleText style.ascii field.1)
    (written : ∀ field ∈ (name, value) :: fields,
      Written depth field.2 (renderAt style level field.2))
    (names : ((before ++ (name, value) :: fields).map Prod.fst).Nodup) (space : IsSpace b) :
    HasFields depth before (before ++ (name, value) :: fields)
      (renderString style.ascii name ++ (style.colon ++ (renderAt style level value ++
        (renderFields style level fields ++ b)))) := by
  obtain ⟨gap, blanks, colon⟩ := sep.colon
  have spaceGap := blanks_iff_isSpace.mp blanks
  induction fields generalizing name value before with
  | nil =>
      let f : Field := ⟨name, [], name.flatMap (escapeOne style.ascii), [],
        ⟨value, gap, renderAt style level value, b⟩⟩
      have named : f.IsNamed :=
        ⟨.nil, body_escaped (legible _ List.mem_cons_self), .nil, spaceGap, space⟩
      have all := @HasFields.one depth before f named (written _ List.mem_cons_self)
      rw [Field.put, put_of_nodup names] at all
      simpa only [f, Field.text, Item.text, renderFields, renderString, colon, List.cons_append,
        List.append_assoc, List.nil_append] using all
  | cons next fields ih =>
      obtain ⟨name', value'⟩ := next
      obtain ⟨b', blanks', comma⟩ := sep.comma
      obtain ⟨first, written⟩ := List.forall_mem_cons.mp written
      obtain ⟨text, legible⟩ := List.forall_mem_cons.mp legible
      let f : Field := ⟨name, [], name.flatMap (escapeOne style.ascii), [],
        ⟨value, gap, renderAt style level value, []⟩⟩
      have named : f.IsNamed := ⟨.nil, body_escaped text, .nil, spaceGap, .nil⟩
      have put := put_of_nodup names
      rw [List.append_cons] at names ⊢
      have later := ((ih legible written names).indent (isSpace_lineBreak style level)).indent
        (blanks_iff_isSpace.mp blanks')
      rw [← put] at later ⊢
      have all := @HasFields.cons depth before _ _ f named first later
      simpa only [f, Field.text, Item.text, renderFields, renderString, colon, comma,
        List.cons_append, List.append_assoc, List.nil_append] using all

/-! ## Values -/

/-- A value that is read back as it was written: it has no number, its texts are
legible, no object has two fields of one name, and it nests at most so deep. -/
inductive Legible (ascii : Bool) : Nat → Json → Prop where
  | null {depth : Nat} : Legible ascii depth .null
  | bool {depth : Nat} (b : Bool) : Legible ascii depth (.bool b)
  | str {depth : Nat} {t : Text} (text : LegibleText ascii t) :
      Legible ascii depth (.str t)
  | arr {depth : Nat} {items : List Json}
      (values : ∀ item ∈ items, Legible ascii depth item) :
      Legible ascii (depth + 1) (.arr items)
  | obj {depth : Nat} {fields : List (Text × Json)}
      (names : (fields.map Prod.fst).Nodup)
      (texts : ∀ field ∈ fields, LegibleText ascii field.1)
      (values : ∀ field ∈ fields, Legible ascii depth field.2) :
      Legible ascii (depth + 1) (.obj fields)

theorem renderAt_arr (style : Style) (level : Nat) (item : Json) (items : List Json) :
    renderAt style level (.arr (item :: items)) = CodePoint.ofChar '[' ::
      (lineBreak style (level + 1) ++ (renderAt style (level + 1) item ++
        (renderItems style (level + 1) items ++ lineBreak style level)) ++
          [CodePoint.ofChar ']']) := by
  simp only [renderAt, List.append_assoc]
  rfl

theorem renderAt_obj (style : Style) (level : Nat) (field : Text × Json)
    (fields : List (Text × Json)) :
    renderAt style level (.obj (field :: fields)) = CodePoint.ofChar '\x7b' ::
      (lineBreak style (level + 1) ++ (renderString style.ascii field.1 ++ (style.colon ++
        (renderAt style (level + 1) field.2 ++ (renderFields style (level + 1) fields ++
          lineBreak style level)))) ++ [CodePoint.ofChar '\x7d']) := by
  simp only [renderAt, List.append_assoc]
  rfl

/-- A legible value is written as JSON, at whatever level it stands. -/
theorem Legible.written {value : Json} (sep : style.Separates)
    (h : Legible style.ascii depth value) (level : Nat) :
    Written depth value (renderAt style level value) := by
  induction h generalizing level with
  | null => exact .word (show (text "null", _) ∈ words by simp [words])
  | bool b =>
      cases b with
      | false => exact .word (show (text "false", _) ∈ words by simp [words])
      | true => exact .word (show (text "true", _) ∈ words by simp [words])
  | str legible => exact .str (body_escaped legible)
  | @arr depth items _ ih =>
      cases items with
      | nil => exact .noItem .nil
      | cons item items =>
          have all := (hasItems_render sep (fun value mem => ih value mem (level + 1))
            (isSpace_lineBreak style level)).indent (isSpace_lineBreak style (level + 1))
          exact renderAt_arr style level item items ▸ all.written
  | @obj depth fields names texts _ ih =>
      cases fields with
      | nil => exact .noField .nil
      | cons field fields =>
          have all := (@hasFields_render _ _ _ _ sep _ _ _ [] texts
            (fun field mem => ih field mem (level + 1)) names
            (isSpace_lineBreak style level)).indent (isSpace_lineBreak style (level + 1))
          exact renderAt_obj style level field fields ▸ all.written

/-- Reading takes back what was written in any style whose signs are set apart by
blanks. -/
theorem parse_render {value : Json} (sep : style.Separates)
    (h : Legible style.ascii maxDepth value) :
    parse (render style value) = .ok value :=
  parse_eq_ok_iff.mpr ⟨⟨value, [], renderAt style 0 value, []⟩, ⟨.nil, .nil⟩, h.written sep 0, rfl,
    List.append_nil _⟩

end Json

end Playground
