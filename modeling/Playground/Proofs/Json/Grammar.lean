import Mathlib.Data.List.Forall2
import Playground.Json.Parser

/-!
# What is JSON

A text is JSON of a value when it is put together in the way that the grammar says,
and that can be told without a reader. Words, numbers and strings are told first,
then the values that hold others, and in the end a whole text, which is a value with
blanks around it.

No text is JSON of two values, although a surrogate may be escaped alone and a pair
of them together: an escape that is completed by the next one does not stand alone. The
limits are the reader's. An integer has at most `maxDigits` digits, and values nest at
most `maxDepth` deep.
-/

namespace Playground

theorem CodePoint.eq_of_val {c d : CodePoint} (h : c.val = d.val) : c = d := by
  obtain ⟨n, _⟩ := c
  obtain ⟨m, _⟩ := d
  cases h
  rfl

namespace Json

/-! ## Blanks -/

/-- Nothing but blanks. -/
def IsSpace (b : Text) : Prop :=
  ∀ c ∈ b, c.val = 32 ∨ c.val = 10 ∨ c.val = 13 ∨ c.val = 9

/-! ## Numbers -/

/-- Decimal digits, one at least, and what they stand for. -/
def Digits (ds : List Nat) (w : Text) : Prop :=
  ds ≠ [] ∧ List.Forall₂ (fun d c => digitValue? c = some d) ds w

/-- The places after the point, if there is one. -/
inductive Fraction : List Nat → Text → Prop
  | absent : Fraction [] []
  | present {ds : List Nat} {w : Text} (digits : Digits ds w) :
      Fraction ds (CodePoint.ofChar '.' :: w)

/-- The power of ten that a number is multiplied with. -/
inductive Exponent : Int → Text → Prop
  | absent : Exponent 0 []
  | plain {e : CodePoint} {ds : List Nat} {w : Text} (letter : e.val = 101 ∨ e.val = 69)
      (digits : Digits ds w) : Exponent (Int.ofNat (ofDigits ds)) (e :: w)
  | plus {e : CodePoint} {ds : List Nat} {w : Text} (letter : e.val = 101 ∨ e.val = 69)
      (digits : Digits ds w) :
      Exponent (Int.ofNat (ofDigits ds)) (e :: CodePoint.ofChar '+' :: w)
  | minus {e : CodePoint} {ds : List Nat} {w : Text} (letter : e.val = 101 ∨ e.val = 69)
      (digits : Digits ds w) :
      Exponent (-Int.ofNat (ofDigits ds)) (e :: CodePoint.ofChar '-' :: w)

/-- A number without its sign. It is an integer if it has neither point nor exponent. -/
inductive Unsigned (negative : Bool) : Json → Text → Prop
  | integer {ds : List Nat} {w : Text} (digits : Digits ds w)
      (shortest : ds.head? = some 0 → ds = [0]) (short : ds.length ≤ maxDigits) :
      Unsigned negative
        (.int (if negative then -Int.ofNat (ofDigits ds) else Int.ofNat (ofDigits ds))) w
  | decimal {ds places : List Nat} {power : Int} {w f e : Text} (digits : Digits ds w)
      (shortest : ds.head? = some 0 → ds = [0]) (fraction : Fraction places f)
      (exponent : Exponent power e) (either : f ≠ [] ∨ e ≠ []) :
      Unsigned negative
        (.num (Binary64.ofDecimal negative (ofDigits (ds ++ places))
          (power - Int.ofNat places.length))) (w ++ (f ++ e))

/-- A number. -/
inductive Numeral : Json → Text → Prop
  | positive {value : Json} {w : Text} (unsigned : Unsigned false value w) : Numeral value w
  | negative {value : Json} {w : Text} (unsigned : Unsigned true value w) :
      Numeral value (CodePoint.ofChar '-' :: w)

/-! ## Strings -/

/-- A text begins with an escape that makes a pair with `high`. -/
def Completes (high : CodePoint) (after : Text) : Prop :=
  ∃ s u a b d e more low, after = s :: u :: a :: b :: d :: e :: more ∧ s.val = 92 ∧
    u.val = 117 ∧ hex4? a b d e = some low ∧ joinPair? high low ≠ none

/-- What stands between the quotes of a string. -/
inductive Body : Text → Text → Prop
  | nil : Body [] []
  | plain {c : CodePoint} {t w : Text} (visible : ¬ c.val < 32) (quote : c.val ≠ 34)
      (backslash : c.val ≠ 92) (more : Body t w) : Body (c :: t) (c :: w)
  | short {letter c : CodePoint} {t w : Text} (escape : shortEscape? letter = some c)
      (more : Body t w) : Body (c :: t) (CodePoint.ofChar '\\' :: letter :: w)
  | unicode {x₁ x₂ x₃ x₄ c : CodePoint} {t w : Text} (hex : hex4? x₁ x₂ x₃ x₄ = some c)
      (alone : ¬ Completes c w) (more : Body t w) :
      Body (c :: t) (CodePoint.ofChar '\\' :: CodePoint.ofChar 'u' :: x₁ :: x₂ :: x₃ :: x₄ :: w)
  | pair {x₁ x₂ x₃ x₄ y₁ y₂ y₃ y₄ high low c : CodePoint} {t w : Text}
      (hexHigh : hex4? x₁ x₂ x₃ x₄ = some high) (hexLow : hex4? y₁ y₂ y₃ y₄ = some low)
      (joined : joinPair? high low = some c) (more : Body t w) :
      Body (c :: t) (CodePoint.ofChar '\\' :: CodePoint.ofChar 'u' :: x₁ :: x₂ :: x₃ :: x₄ ::
        CodePoint.ofChar '\\' :: CodePoint.ofChar 'u' :: y₁ :: y₂ :: y₃ :: y₄ :: w)

/-! ## Values -/

/-- A value as it stands in a text, with the blanks around it. -/
structure Item where
  value : Json
  before : Text
  written : Text
  after : Text

namespace Item

/-- All of it. -/
def text (i : Item) : Text :=
  i.before ++ (i.written ++ i.after)

/-- What stands around it is blank. -/
def IsSpaced (i : Item) : Prop :=
  IsSpace i.before ∧ IsSpace i.after

end Item

/-- A field as it stands in a text, with the blanks around its name. -/
structure Field where
  name : Text
  before : Text
  body : Text
  after : Text
  item : Item

namespace Field

/-- All of it. -/
def text (f : Field) : Text :=
  f.before ++ CodePoint.ofChar '"' ::
    (f.body ++ CodePoint.ofChar '"' :: (f.after ++ CodePoint.ofChar ':' :: f.item.text))

/-- What stands around it is blank, and it has its name. -/
structure IsNamed (f : Field) : Prop where
  before : IsSpace f.before
  body : Body f.name f.body
  after : IsSpace f.after
  item : f.item.IsSpaced

/-- The fields that there are after a further one. -/
def put (fields : List (Text × Json)) (f : Field) : List (Text × Json) :=
  Ordered.put f.name f.item.value fields

end Field

/-- A text with a comma between neighbours. -/
def commas (ts : List Text) : Text :=
  Text.join [CodePoint.ofChar ','] ts

/-- The ways to write a value that nests at most so deep. -/
inductive Written : Nat → Json → Text → Prop
  | word {depth : Nat} {word : Text} {value : Json} (known : (word, value) ∈ words) :
      Written depth value word
  | number {depth : Nat} {value : Json} {w : Text} (numeral : Numeral value w) :
      Written depth value w
  | str {depth : Nat} {t w : Text} (body : Body t w) :
      Written depth (.str t) (CodePoint.ofChar '"' :: (w ++ [CodePoint.ofChar '"']))
  | noItem {depth : Nat} {b : Text} (space : IsSpace b) :
      Written (depth + 1) (.arr []) (CodePoint.ofChar '[' :: (b ++ [CodePoint.ofChar ']']))
  | items {depth : Nat} {items : List Item} (one : items ≠ [])
      (spaced : ∀ i ∈ items, i.IsSpaced) (values : ∀ i ∈ items, Written depth i.value i.written) :
      Written (depth + 1) (.arr (items.map Item.value))
        (CodePoint.ofChar '[' :: (commas (items.map Item.text) ++ [CodePoint.ofChar ']']))
  | noField {depth : Nat} {b : Text} (space : IsSpace b) :
      Written (depth + 1) (.obj [])
        (CodePoint.ofChar '\x7b' :: (b ++ [CodePoint.ofChar '\x7d']))
  | fields {depth : Nat} {fields : List Field} (one : fields ≠ [])
      (named : ∀ f ∈ fields, f.IsNamed)
      (values : ∀ f ∈ fields, Written depth f.item.value f.item.written) :
      Written (depth + 1) (.obj (fields.foldl Field.put []))
        (CodePoint.ofChar '\x7b' :: (commas (fields.map Field.text) ++ [CodePoint.ofChar '\x7d']))

/-- A text is JSON of a value: the value is written there with nothing but blanks around it. -/
def IsDocument (value : Json) (t : Text) : Prop :=
  ∃ i : Item, i.IsSpaced ∧ Written maxDepth i.value i.written ∧ i.value = value ∧ i.text = t

theorem IsSpace.nil : IsSpace [] :=
  List.forall_mem_nil _

theorem IsSpace.append {b b' : Text} (h : IsSpace b) (h' : IsSpace b') : IsSpace (b ++ b') :=
  List.forall_mem_append.mpr ⟨h, h'⟩

/-! ## Lists of values -/

variable {depth : Nat} {value : Json}

theorem commas_cons (t u : Text) (ts : List Text) :
    commas (t :: u :: ts) = t ++ CodePoint.ofChar ',' :: commas (u :: ts) := by
  show t ++ [CodePoint.ofChar ','] ++ commas (u :: ts) = _
  rw [List.append_assoc]
  rfl

theorem commas_append (b t : Text) (ts : List Text) :
    commas ((b ++ t) :: ts) = b ++ commas (t :: ts) := by
  cases ts with
  | nil => rfl
  | cons u ts => rw [commas_cons, commas_cons, List.append_assoc]

/-- The items of an array are written in a text. -/
def HasItems (depth : Nat) (values : List Json) (w : Text) : Prop :=
  ∃ items : List Item, items ≠ [] ∧ (∀ i ∈ items, i.IsSpaced) ∧
    (∀ i ∈ items, Written depth i.value i.written) ∧ items.map Item.value = values ∧
    commas (items.map Item.text) = w

namespace HasItems

variable {values : List Json} {w b : Text} {i : Item}

theorem one (spaced : i.IsSpaced) (written : Written depth i.value i.written) :
    HasItems depth [i.value] i.text :=
  ⟨[i], List.cons_ne_nil _ _, List.forall_mem_singleton.mpr spaced,
    List.forall_mem_singleton.mpr written, rfl, rfl⟩

theorem cons (spaced : i.IsSpaced) (written : Written depth i.value i.written)
    (later : HasItems depth values w) :
    HasItems depth (i.value :: values) (i.text ++ CodePoint.ofChar ',' :: w) := by
  obtain ⟨items, one, allSpaced, allWritten, rfl, rfl⟩ := later
  obtain ⟨j, items, rfl⟩ := List.exists_cons_of_ne_nil one
  exact ⟨i :: j :: items, List.cons_ne_nil _ _, List.forall_mem_cons.mpr ⟨spaced, allSpaced⟩,
    List.forall_mem_cons.mpr ⟨written, allWritten⟩, rfl, commas_cons _ _ _⟩

/-- Blanks may stand in front of the first item. -/
theorem indent (space : IsSpace b) (h : HasItems depth values w) :
    HasItems depth values (b ++ w) := by
  obtain ⟨items, one, spaced, written, rfl, rfl⟩ := h
  obtain ⟨i, items, rfl⟩ := List.exists_cons_of_ne_nil one
  obtain ⟨first, spaced⟩ := List.forall_mem_cons.mp spaced
  refine ⟨{ i with before := b ++ i.before } :: items, List.cons_ne_nil _ _,
    List.forall_mem_cons.mpr ⟨⟨space.append first.1, first.2⟩, spaced⟩,
    List.forall_mem_cons.mpr (List.forall_mem_cons.mp written), rfl, ?_⟩
  have indented : ({ i with before := b ++ i.before } : Item).text = b ++ i.text :=
    List.append_assoc ..
  rw [List.map_cons, List.map_cons, indented, commas_append]

theorem written (h : HasItems depth values w) :
    Written (depth + 1) (.arr values) (CodePoint.ofChar '[' :: (w ++ [CodePoint.ofChar ']'])) := by
  obtain ⟨items, one, spaced, written, rfl, rfl⟩ := h
  exact .items one spaced written

end HasItems

/-- The fields of an object are written in a text, behind others. -/
def HasFields (depth : Nat) (before fields : List (Text × Json)) (w : Text) : Prop :=
  ∃ fs : List Field, fs ≠ [] ∧ (∀ f ∈ fs, f.IsNamed) ∧
    (∀ f ∈ fs, Written depth f.item.value f.item.written) ∧ fs.foldl Field.put before = fields ∧
    commas (fs.map Field.text) = w

namespace HasFields

variable {before fields : List (Text × Json)} {w b : Text} {f : Field}

theorem one (named : f.IsNamed) (written : Written depth f.item.value f.item.written) :
    HasFields depth before (f.put before) f.text :=
  ⟨[f], List.cons_ne_nil _ _, List.forall_mem_singleton.mpr named,
    List.forall_mem_singleton.mpr written, rfl, rfl⟩

theorem cons (named : f.IsNamed) (written : Written depth f.item.value f.item.written)
    (later : HasFields depth (f.put before) fields w) :
    HasFields depth before fields (f.text ++ CodePoint.ofChar ',' :: w) := by
  obtain ⟨fs, one, allNamed, allWritten, rfl, rfl⟩ := later
  obtain ⟨g, fs, rfl⟩ := List.exists_cons_of_ne_nil one
  exact ⟨f :: g :: fs, List.cons_ne_nil _ _, List.forall_mem_cons.mpr ⟨named, allNamed⟩,
    List.forall_mem_cons.mpr ⟨written, allWritten⟩, rfl, commas_cons _ _ _⟩

/-- Blanks may stand in front of the first field. -/
theorem indent (space : IsSpace b) (h : HasFields depth before fields w) :
    HasFields depth before fields (b ++ w) := by
  obtain ⟨fs, one, named, written, rfl, rfl⟩ := h
  obtain ⟨f, fs, rfl⟩ := List.exists_cons_of_ne_nil one
  obtain ⟨first, named⟩ := List.forall_mem_cons.mp named
  refine ⟨{ f with before := b ++ f.before } :: fs, List.cons_ne_nil _ _,
    List.forall_mem_cons.mpr
      ⟨⟨space.append first.before, first.body, first.after, first.item⟩, named⟩,
    List.forall_mem_cons.mpr (List.forall_mem_cons.mp written), rfl, ?_⟩
  have indented : ({ f with before := b ++ f.before } : Field).text = b ++ f.text :=
    List.append_assoc ..
  rw [List.map_cons, List.map_cons, indented, commas_append]

theorem written (h : HasFields depth [] fields w) : Written (depth + 1) (.obj fields)
    (CodePoint.ofChar '\x7b' :: (w ++ [CodePoint.ofChar '\x7d'])) := by
  obtain ⟨fs, one, named, written, rfl, rfl⟩ := h
  exact .fields one named written

end HasFields

end Json

end Playground
