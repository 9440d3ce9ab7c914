import Playground.Proofs.Json.Scalars

/-!
# A text is read exactly if it is JSON

The parts of the reader that call each other are opened once, and so are the two things
that they have in common: what may stand behind an opening sign, and what may stand behind
an item or a field. For each of these there is one lemma that says how it must have gone
and there are some that say how it goes.

What is read is in the grammar by induction on the fuel, since the three parts always call
each other with less of it. What is in the grammar is read by induction on the evidence.
For the fuel it is enough then that there is a unit for each code point, because every
level of the recursion is paid for by a bracket or a comma.
-/

namespace Playground.Json

variable {c : CodePoint} {t w rest : Text} {depth fuel : Nat} {value : Json}

/-! ## Steps -/

section Steps

variable {α : Type} {close : CodePoint} {a : α}

/-- What is read behind an opening sign: the closing one, or something in between. -/
def opened (close : CodePoint) (empty : α) (read : Text → Except Fault (α × Text)) (t : Text) :
    Except Fault (α × Text) :=
  match skipBlanks t with
  | d :: after => if d.val = close.val then .ok (empty, after) else read (d :: after)
  | [] => .error .malformed

theorem opened_cases {empty : α} {read : Text → Except Fault (α × Text)}
    (h : opened close empty read t = .ok (a, rest)) :
    skipBlanks t = close :: rest ∧ empty = a ∨
      ∃ d after, skipBlanks t = d :: after ∧ read (d :: after) = .ok (a, rest) := by
  unfold opened at h
  cases first : skipBlanks t with
  | nil =>
      rw [first] at h
      cases h
  | cons d after =>
      simp only [first] at h
      split at h
      · next same =>
          cases h
          exact .inl ⟨CodePoint.eq_of_val same ▸ rfl, rfl⟩
      · exact .inr ⟨d, after, rfl, h⟩

theorem opened_close {empty : α} {read : Text → Except Fault (α × Text)} {b : Text}
    (solid : skipBlanks (close :: rest) = close :: rest) (space : IsSpace b) :
    opened close empty read (b ++ close :: rest) = .ok (empty, rest) := by
  rw [opened, skipBlanks_append space, solid]
  exact if_pos rfl

theorem opened_other {empty : α} {read : Text → Except Fault (α × Text)}
    (other : ∃ d after, skipBlanks t = d :: after ∧ d ≠ close) :
    opened close empty read t = read (skipBlanks t) := by
  obtain ⟨d, after, first, other⟩ := other
  rw [opened, first]
  exact if_neg fun same => other (CodePoint.eq_of_val same)

/-- What is read behind an item or a field: the closing sign, or a comma and more. -/
def continued (close : CodePoint) (last : α) (read : Text → Except Fault (α × Text)) (t : Text) :
    Except Fault (α × Text) :=
  match skipBlanks t with
  | [] => .error .malformed
  | c :: after =>
    if c.val = close.val then .ok (last, after)
    else if c.val = 44 then read (skipBlanks after)
    else .error .malformed

theorem continued_cases {last : α} {read : Text → Except Fault (α × Text)}
    (h : continued close last read t = .ok (a, rest)) :
    skipBlanks t = close :: rest ∧ last = a ∨
      ∃ after, skipBlanks t = CodePoint.ofChar ',' :: after ∧
        read (skipBlanks after) = .ok (a, rest) := by
  unfold continued at h
  cases behind : skipBlanks t with
  | nil =>
      rw [behind] at h
      cases h
  | cons c after =>
      simp only [behind] at h
      split at h
      · next same =>
          cases h
          exact .inl ⟨CodePoint.eq_of_val same ▸ rfl, rfl⟩
      split at h
      · next comma =>
          obtain rfl : c = CodePoint.ofChar ',' := CodePoint.eq_of_val comma
          exact .inr ⟨after, rfl, h⟩
      · cases h

theorem continued_close {last : α} {read : Text → Except Fault (α × Text)} {b : Text}
    (solid : skipBlanks (close :: rest) = close :: rest) (space : IsSpace b) :
    continued close last read (b ++ close :: rest) = .ok (last, rest) := by
  rw [continued, skipBlanks_append space, solid]
  exact if_pos rfl

theorem continued_comma {last : α} {read : Text → Except Fault (α × Text)} {b : Text}
    (noComma : close ≠ CodePoint.ofChar ',') (space : IsSpace b) (t : Text) :
    continued close last read (b ++ CodePoint.ofChar ',' :: t) = read (skipBlanks t) := by
  have solid : skipBlanks (CodePoint.ofChar ',' :: t) = CodePoint.ofChar ',' :: t := rfl
  rw [continued, skipBlanks_append space, solid]
  simp only []
  rw [if_neg fun same => noComma (CodePoint.eq_of_val same).symm]
  exact if_pos rfl

/-- What was read is made a value of another kind. -/
def wrapped {β : Type} (f : β → α) : Except Fault (β × Text) → Except Fault (α × Text)
  | .ok (b, after) => .ok (f b, after)
  | .error e => .error e

theorem wrapped_eq_ok_iff {β : Type} {f : β → α} {read : Except Fault (β × Text)} :
    wrapped f read = .ok (a, rest) ↔ ∃ b, read = .ok (b, rest) ∧ f b = a := by
  cases read with
  | error => exact iff_of_false nofun nofun
  | ok found =>
      obtain ⟨b, after⟩ := found
      simp [wrapped, and_comm]

end Steps

theorem valueFrom_quote :
    valueFrom (fuel + 1) depth (CodePoint.ofChar '"' :: t) = .ok (value, rest) ↔
      ∃ s, stringFrom (t.length + 1) t = some (s, rest) ∧ .str s = value := by
  have quote : (CodePoint.ofChar '"').val = 34 := rfl
  rw [valueFrom.eq_def]
  simp only []
  rw [if_pos quote]
  cases stringFrom (t.length + 1) t with
  | none => simp
  | some found =>
      obtain ⟨s, after⟩ := found
      simp [and_comm]

theorem valueFrom_bracket (fuel depth : Nat) (t : Text) :
    valueFrom (fuel + 1) (depth + 1) (CodePoint.ofChar '[' :: t) =
      opened (CodePoint.ofChar ']') (.arr []) (fun t => wrapped .arr (itemsFrom fuel depth t)) t := by
  have bracket : (CodePoint.ofChar '[').val = 91 := rfl
  rw [valueFrom.eq_def]
  simp only []
  rw [if_neg (by rw [bracket]; decide), if_pos bracket]
  unfold opened
  cases skipBlanks t with
  | nil => rfl
  | cons d after =>
      simp only []
      cases itemsFrom fuel depth (d :: after) with
      | error => rfl
      | ok => rfl

theorem valueFrom_bracket_zero (fuel : Nat) (t : Text) :
    valueFrom (fuel + 1) 0 (CodePoint.ofChar '[' :: t) = .error (.tooDeep true) := by
  have bracket : (CodePoint.ofChar '[').val = 91 := rfl
  rw [valueFrom.eq_def]
  simp only []
  rw [if_neg (by rw [bracket]; decide), if_pos bracket]

theorem valueFrom_brace (fuel depth : Nat) (t : Text) :
    valueFrom (fuel + 1) (depth + 1) (CodePoint.ofChar '\x7b' :: t) =
      opened (CodePoint.ofChar '\x7d') (.obj [])
        (fun t => wrapped .obj (fieldsFrom fuel depth [] t)) t := by
  have brace : (CodePoint.ofChar '\x7b').val = 123 := rfl
  rw [valueFrom.eq_def]
  simp only []
  rw [if_neg (by rw [brace]; decide), if_neg (by rw [brace]; decide), if_pos brace]
  unfold opened
  cases skipBlanks t with
  | nil => rfl
  | cons d after =>
      simp only []
      cases fieldsFrom fuel depth [] (d :: after) with
      | error => rfl
      | ok => rfl

theorem valueFrom_brace_zero (fuel : Nat) (t : Text) :
    valueFrom (fuel + 1) 0 (CodePoint.ofChar '\x7b' :: t) = .error (.tooDeep false) := by
  have brace : (CodePoint.ofChar '\x7b').val = 123 := rfl
  rw [valueFrom.eq_def]
  simp only []
  rw [if_neg (by rw [brace]; decide), if_neg (by rw [brace]; decide), if_pos brace]

theorem valueFrom_atom (quote : c ≠ CodePoint.ofChar '"') (bracket : c ≠ CodePoint.ofChar '[')
    (brace : c ≠ CodePoint.ofChar '\x7b') :
    valueFrom (fuel + 1) depth (c :: t) = atom (c :: t) := by
  rw [valueFrom.eq_def]
  simp only []
  rw [if_neg fun h : c.val = 34 => quote (CodePoint.eq_of_val h),
    if_neg fun h : c.val = 91 => bracket (CodePoint.eq_of_val h),
    if_neg fun h : c.val = 123 => brace (CodePoint.eq_of_val h)]

theorem itemsFrom_of_valueFrom {more : Text} (read : valueFrom fuel depth t = .ok (value, more)) :
    itemsFrom (fuel + 1) depth t = continued (CodePoint.ofChar ']') [value]
      (fun t => wrapped (value :: ·) (itemsFrom fuel depth t)) more := by
  rw [itemsFrom.eq_def]
  simp only [read]
  unfold continued
  cases skipBlanks more with
  | nil => rfl
  | cons c after =>
      simp only []
      cases itemsFrom fuel depth (skipBlanks after) with
      | error => rfl
      | ok => rfl

theorem itemsFrom_succ {values : List Json} :
    itemsFrom (fuel + 1) depth t = .ok (values, rest) ↔
      ∃ value more, valueFrom fuel depth t = .ok (value, more) ∧
        continued (CodePoint.ofChar ']') [value]
          (fun t => wrapped (value :: ·) (itemsFrom fuel depth t)) more = .ok (values, rest) := by
  constructor
  · intro h
    cases read : valueFrom fuel depth t with
    | error =>
        rw [itemsFrom.eq_def] at h
        simp only [read] at h
        cases h
    | ok found =>
        obtain ⟨value, more⟩ := found
        exact ⟨value, more, rfl, itemsFrom_of_valueFrom read ▸ h⟩
  · rintro ⟨value, more, read, h⟩
    exact (itemsFrom_of_valueFrom read).trans h

theorem fieldsFrom_succ {before fields : List (Text × Json)} :
    fieldsFrom (fuel + 1) depth before t = .ok (fields, rest) ↔
      ∃ t' name more next value more', t = CodePoint.ofChar '"' :: t' ∧
        stringFrom (t'.length + 1) t' = some (name, more) ∧
        skipBlanks more = CodePoint.ofChar ':' :: next ∧
        valueFrom fuel depth (skipBlanks next) = .ok (value, more') ∧
        continued (CodePoint.ofChar '\x7d') (Ordered.put name value before)
          (fieldsFrom fuel depth (Ordered.put name value before)) more' = .ok (fields, rest) := by
  rw [fieldsFrom.eq_def]
  constructor
  · intro h
    cases t with
    | nil => cases h
    | cons q t =>
        simp only [] at h
        split at h
        · cases h
        · next quote =>
            obtain rfl : q = CodePoint.ofChar '"' := CodePoint.eq_of_val (not_not.mp quote)
            split at h
            · cases h
            · next name more string =>
                cases behind : skipBlanks more with
                | nil =>
                    simp only [behind] at h
                    cases h
                | cons colon next =>
                    simp only [behind] at h
                    split at h
                    · cases h
                    · next known =>
                        obtain rfl : colon = CodePoint.ofChar ':' :=
                          CodePoint.eq_of_val (not_not.mp known)
                        split at h
                        · cases h
                        · next value more' read =>
                            exact ⟨t, name, more, next, value, more', rfl, string, behind, read, h⟩
  · rintro ⟨t, name, more, next, value, more', rfl, string, behind, read, h⟩
    have quote : (CodePoint.ofChar '"').val = 34 := rfl
    have colon : (CodePoint.ofChar ':').val = 58 := rfl
    simp only [string, behind, read]
    rw [if_neg (not_not.mpr quote), if_neg (not_not.mpr colon)]
    exact h

/-! ## Whatever is read is JSON -/

theorem written_of_atom (h : atom t = .ok (value, rest)) :
    ∃ w, t = w ++ rest ∧ Written depth value w := by
  unfold atom at h
  split at h
  · next found known =>
      cases h
      obtain ⟨⟨word, value⟩, mem, taken⟩ := List.exists_of_findSome?_eq_some known
      obtain ⟨rest, behind, same⟩ := Option.map_eq_some_iff.mp taken
      cases same
      exact ⟨word, Text.after?_eq_some_iff.mp behind, .word mem⟩
  · cases t with
    | nil => cases h
    | cons c t =>
        simp only [] at h
        split at h
        · next minus =>
            obtain rfl : c = CodePoint.ofChar '-' := CodePoint.eq_of_val minus
            obtain ⟨w, rfl, unsigned⟩ := unsigned_of_number h
            exact ⟨_, rfl, .number (.negative unsigned)⟩
        · obtain ⟨w, split, unsigned⟩ := unsigned_of_number h
          exact ⟨w, split, .number (.positive unsigned)⟩

/-- What is in an array or an object, in its signs, stands in front of what is behind them. -/
theorem enclosed_append (opening closing : CodePoint) (w rest : Text) :
    opening :: (w ++ [closing]) ++ rest = opening :: (w ++ closing :: rest) := by
  rw [List.cons_append, List.append_assoc]
  rfl

mutual

theorem written_of_valueFrom {fuel depth : Nat} {t rest : Text} {value : Json}
    (h : valueFrom fuel depth t = .ok (value, rest)) :
    ∃ w, t = w ++ rest ∧ Written depth value w := by
  match fuel, t with
  | 0, _ =>
      rw [valueFrom.eq_def] at h
      cases h
  | fuel + 1, [] =>
      rw [valueFrom.eq_def] at h
      cases h
  | fuel + 1, c :: t =>
      by_cases quote : c = CodePoint.ofChar '"'
      · subst quote
        obtain ⟨s, string, rfl⟩ := valueFrom_quote.mp h
        obtain ⟨w, rfl, body⟩ := body_of_stringFrom string
        exact ⟨_, (enclosed_append _ _ w rest).symm, .str body⟩
      by_cases bracket : c = CodePoint.ofChar '['
      · subst bracket
        cases depth with
        | zero => exact absurd h (valueFrom_bracket_zero fuel t ▸ nofun)
        | succ depth =>
            rw [valueFrom_bracket] at h
            rcases opened_cases h with ⟨closed, rfl⟩ | ⟨d, after, first, inside⟩
            · obtain ⟨b, space, rfl⟩ := exists_space_of_eq closed
              exact ⟨_, (enclosed_append _ _ b rest).symm, .noItem space⟩
            · -- The blanks behind the bracket are those in front of the first item.
              obtain ⟨b, space, rfl⟩ := exists_space_of_eq first
              obtain ⟨values, listed, rfl⟩ := wrapped_eq_ok_iff.mp inside
              obtain ⟨w, split, has⟩ := items_of_itemsFrom listed
              refine ⟨_, ?_, (has.indent space).written⟩
              rw [enclosed_append, split, List.append_assoc]
      by_cases brace : c = CodePoint.ofChar '\x7b'
      · subst brace
        cases depth with
        | zero => exact absurd h (valueFrom_brace_zero fuel t ▸ nofun)
        | succ depth =>
            rw [valueFrom_brace] at h
            rcases opened_cases h with ⟨closed, rfl⟩ | ⟨d, after, first, inside⟩
            · obtain ⟨b, space, rfl⟩ := exists_space_of_eq closed
              exact ⟨_, (enclosed_append _ _ b rest).symm, .noField space⟩
            · obtain ⟨b, space, rfl⟩ := exists_space_of_eq first
              obtain ⟨fields, listed, rfl⟩ := wrapped_eq_ok_iff.mp inside
              obtain ⟨w, split, has⟩ := fields_of_fieldsFrom listed
              refine ⟨_, ?_, (has.indent space).written⟩
              rw [enclosed_append, split, List.append_assoc]
      · rw [valueFrom_atom quote bracket brace] at h
        exact written_of_atom h
termination_by fuel

theorem items_of_itemsFrom {fuel depth : Nat} {t rest : Text} {values : List Json}
    (h : itemsFrom fuel depth t = .ok (values, rest)) :
    ∃ w, t = w ++ CodePoint.ofChar ']' :: rest ∧ HasItems depth values w := by
  match fuel with
  | 0 =>
      rw [itemsFrom.eq_def] at h
      cases h
  | fuel + 1 =>
      obtain ⟨value, more, read, goesOn⟩ := itemsFrom_succ.mp h
      obtain ⟨w, rfl, written⟩ := written_of_valueFrom read
      rcases continued_cases goesOn with ⟨closed, rfl⟩ | ⟨after, comma, onward⟩
      · obtain ⟨b, space, rfl⟩ := exists_space_of_eq closed
        refine ⟨w ++ b, (List.append_assoc ..).symm, ?_⟩
        exact @HasItems.one depth ⟨value, [], w, b⟩ ⟨.nil, space⟩ written
      · obtain ⟨b, space, rfl⟩ := exists_space_of_eq comma
        obtain ⟨values, listed, rfl⟩ := wrapped_eq_ok_iff.mp onward
        -- Here too, what stands behind the comma is counted with the next item.
        obtain ⟨b', space', same⟩ := exists_space after
        obtain ⟨w', split, later⟩ := items_of_itemsFrom listed
        refine ⟨(w ++ b) ++ CodePoint.ofChar ',' :: (b' ++ w'), ?_, ?_⟩
        · rw [same, split]
          simp only [List.append_assoc, List.cons_append]
        · exact @HasItems.cons depth values (b' ++ w') ⟨value, [], w, b⟩
            ⟨.nil, space⟩ written (later.indent space')
termination_by fuel

theorem fields_of_fieldsFrom {fuel depth : Nat} {before fields : List (Text × Json)}
    {t rest : Text} (h : fieldsFrom fuel depth before t = .ok (fields, rest)) :
    ∃ w, t = w ++ CodePoint.ofChar '\x7d' :: rest ∧ HasFields depth before fields w := by
  match fuel with
  | 0 =>
      rw [fieldsFrom.eq_def] at h
      cases h
  | fuel + 1 =>
      obtain ⟨t', name, more, next, value, more', rfl, string, colon, read, goesOn⟩ :=
        fieldsFrom_succ.mp h
      obtain ⟨body, rfl, named⟩ := body_of_stringFrom string
      obtain ⟨gap, blank, rfl⟩ := exists_space_of_eq colon
      obtain ⟨b, space, same⟩ := exists_space next
      obtain ⟨w, split, written⟩ := written_of_valueFrom read
      rcases continued_cases goesOn with ⟨closed, rfl⟩ | ⟨after, comma, onward⟩
      · obtain ⟨b', space', rfl⟩ := exists_space_of_eq closed
        let f : Field := ⟨name, [], body, gap, ⟨value, b, w, b'⟩⟩
        have isNamed : f.IsNamed := ⟨.nil, named, blank, space, space'⟩
        refine ⟨f.text, ?_, @HasFields.one depth before f isNamed written⟩
        rw [same, split]
        simp only [f, Field.text, Item.text, List.append_assoc, List.cons_append, List.nil_append]
      · obtain ⟨b', space', rfl⟩ := exists_space_of_eq comma
        let f : Field := ⟨name, [], body, gap, ⟨value, b, w, b'⟩⟩
        obtain ⟨b'', space'', same'⟩ := exists_space after
        obtain ⟨w', split', later⟩ := fields_of_fieldsFrom onward
        refine ⟨f.text ++ CodePoint.ofChar ',' :: (b'' ++ w'), ?_, ?_⟩
        · rw [same, split, same', split']
          simp only [f, Field.text, Item.text, List.append_assoc, List.cons_append, List.nil_append]
        · exact @HasFields.cons depth before fields (b'' ++ w') f
            ⟨.nil, named, blank, space, space'⟩ written (later.indent space'')
termination_by fuel

end

/-- Whatever is read is JSON of the value that it is read as. -/
theorem isDocument_of_parse (h : parse t = .ok value) : IsDocument value t := by
  unfold parse at h
  split at h
  · cases h
  · next value' rest read =>
      split at h
      · next ended =>
          cases h
          obtain ⟨before, spaceBefore, same⟩ := exists_space t
          obtain ⟨w, split, written⟩ := written_of_valueFrom read
          obtain ⟨after, spaceAfter, rest⟩ := exists_space rest
          rw [List.isEmpty_iff.mp ended, List.append_nil] at rest
          refine ⟨⟨_, before, w, after⟩, ⟨spaceBefore, spaceAfter⟩, written, rfl, ?_⟩
          rw [same, split, rest]
          rfl
      · cases h

/-! ## All JSON is read -/

theorem length_word : ∀ p ∈ words, 2 ≤ p.1.length := by
  decide

theorem noDigit_of_mem_word {p : Text × Json} (known : p ∈ words) (h : c ∈ p.1) :
    digitValue? c = none := by
  have all : ∀ p ∈ words, ∀ c ∈ p.1, digitValue? c = none := by decide
  exact all p known c h

/-- A text begins with what opens a value: no blank, and no bracket that closes an array. -/
def Opens (w : Text) : Prop :=
  ∃ c t, w = c :: t ∧ (∀ t, skipBlanks (c :: t) = c :: t) ∧ c ≠ CodePoint.ofChar ']'

theorem Opens.skipBlanks_append (opens : Opens w) (t : Text) : skipBlanks (w ++ t) = w ++ t := by
  obtain ⟨c, t', rfl, solid, -⟩ := opens
  exact solid _

theorem opens_of_digit {d : Nat} (digit : digitValue? c = some d) (t : Text) : Opens (c :: t) := by
  obtain ⟨small, val⟩ := digitValue?_eq_some_iff.mp digit
  have bracket : (CodePoint.ofChar ']').val = 93 := rfl
  refine ⟨c, t, rfl, fun t => ?_, ?_⟩
  · rw [skipBlanks, if_neg (by omega)]
  · rintro rfl
    omega

theorem Unsigned.exists_digit {negative : Bool} (unsigned : Unsigned negative value w) :
    ∃ c t d, w = c :: t ∧ digitValue? c = some d := by
  cases unsigned with
  | integer digits =>
      obtain ⟨d, _, c, t, -, rfl, digit, -⟩ := digits.exists_cons
      exact ⟨c, t, d, rfl, digit⟩
  | decimal digits =>
      obtain ⟨d, _, c, t, -, rfl, digit, -⟩ := digits.exists_cons
      exact ⟨c, _, d, rfl, digit⟩

theorem Numeral.opens (numeral : Numeral value w) : Opens w := by
  cases numeral with
  | positive unsigned =>
      obtain ⟨c, t, d, rfl, digit⟩ := unsigned.exists_digit
      exact opens_of_digit digit t
  | negative => exact ⟨_, _, rfl, fun _ => rfl, by decide⟩

theorem Written.opens (written : Written depth value w) : Opens w := by
  cases written with
  | word known =>
      have letters : ∀ p ∈ words, ∀ c ∈ p.1, c ≠ CodePoint.ofChar ']' ∧
          ¬ (c.val = 32 ∨ c.val = 10 ∨ c.val = 13 ∨ c.val = 9) := by decide
      obtain ⟨c, t, rfl⟩ := List.exists_cons_of_length_pos (Nat.zero_lt_of_lt (length_word _ known))
      obtain ⟨bracket, solid⟩ := letters _ known c List.mem_cons_self
      exact ⟨c, t, rfl, fun t => by rw [skipBlanks, if_neg solid], bracket⟩
  | number numeral => exact numeral.opens
  | str | noItem | items | noField | fields =>
      exact ⟨_, _, rfl, fun _ => rfl, by decide⟩

/-! ### Words and numbers -/

theorem atom_word {word : Text} (known : (word, value) ∈ words) (rest : Text) :
    atom (word ++ rest) = .ok (value, rest) := by
  simp only [words, List.mem_cons, Prod.mk.injEq, List.not_mem_nil, or_false] at known
  rcases known with ⟨rfl, rfl⟩ | ⟨rfl, rfl⟩ | ⟨rfl, rfl⟩ | ⟨rfl, rfl⟩ | ⟨rfl, rfl⟩ | ⟨rfl, rfl⟩ <;>
    rfl

/-- Neither a digit nor a sign in front of one begins a word. -/
theorem not_word_of_digit {d : Nat} (digit : digitValue? c = some d) (early : c ∈ t.take 2)
    {p : Text × Json} (known : p ∈ words) : t ≠ p.1 ++ rest := by
  rintro rfl
  rw [List.take_append_of_le_length (length_word p known)] at early
  rw [noDigit_of_mem_word known (List.mem_of_mem_take early)] at digit
  cases digit

theorem findSome?_words_eq_none (h : ∀ p ∈ words, ∀ rest, t ≠ p.1 ++ rest) :
    (words.findSome? fun (word, value) => (Text.after? word t).map fun rest => (value, rest)) =
      none := by
  refine List.findSome?_eq_none_iff.mpr fun p known => ?_
  cases taken : Text.after? p.1 t with
  | none => simp only [taken, Option.map_none]
  | some rest => exact absurd (Text.after?_eq_some_iff.mp taken) (h p known rest)

theorem atom_numeral (numeral : Numeral value w) (ends : Ends rest) :
    atom (w ++ rest) = .ok (value, rest) := by
  have minus : (CodePoint.ofChar '-').val = 45 := rfl
  unfold atom
  cases numeral with
  | positive unsigned =>
      have read := number_append unsigned ends
      obtain ⟨c, t, d, rfl, digit⟩ := unsigned.exists_digit
      rw [findSome?_words_eq_none fun p known rest =>
        not_word_of_digit digit List.mem_cons_self known]
      simp only [List.cons_append]
      have unsign : ¬ c.val = 45 := by
        have val := (digitValue?_eq_some_iff.mp digit).2
        omega
      rw [if_neg unsign, ← List.cons_append, read]
  | negative unsigned =>
      have read := number_append unsigned ends
      obtain ⟨c, t, d, rfl, digit⟩ := unsigned.exists_digit
      rw [findSome?_words_eq_none fun p known rest =>
        not_word_of_digit digit (List.mem_cons_of_mem _ List.mem_cons_self) known]
      simp only [List.cons_append]
      rw [if_pos minus, ← List.cons_append, read]

/-! ### Values that hold others -/

theorem Ends.nil : Ends [] :=
  nofun

theorem Ends.space_append {b : Text} (space : IsSpace b) (ends : Ends rest) : Ends (b ++ rest) := by
  cases b with
  | nil => exact ends
  | cons c b =>
      intro c' hc'
      cases hc'
      have blank := space c List.mem_cons_self
      exact ⟨digitValue?_eq_none (by omega), by omega⟩

/-- The signs after a value end it. -/
theorem Ends.sign {close : CodePoint}
    (sign : close = CodePoint.ofChar ',' ∨ close = CodePoint.ofChar ']' ∨
      close = CodePoint.ofChar '\x7d') (t : Text) : Ends (close :: t) := by
  intro c hc
  cases hc
  rcases sign with rfl | rfl | rfl <;> exact ⟨rfl, by decide⟩

/-- A value is read where it is written, if there is enough fuel. -/
def IsRead (depth : Nat) (value : Json) (w : Text) : Prop :=
  ∀ (fuel : Nat) (rest : Text), w.length ≤ fuel → Ends rest →
    valueFrom fuel depth (w ++ rest) = .ok (value, rest)

theorem isRead_of_atom (opens : Opens w)
    (first : ∀ c ∈ w.head?, c ≠ CodePoint.ofChar '"' ∧ c ≠ CodePoint.ofChar '[' ∧
      c ≠ CodePoint.ofChar '\x7b')
    (read : ∀ {rest}, Ends rest → atom (w ++ rest) = .ok (value, rest)) : IsRead depth value w := by
  intro fuel rest fits ends
  obtain ⟨c, t, rfl, -⟩ := opens
  obtain ⟨fuel, rfl⟩ := Nat.exists_eq_succ_of_ne_zero (Nat.ne_zero_of_lt fits)
  obtain ⟨quote, bracket, brace⟩ := first c rfl
  exact (valueFrom_atom quote bracket brace).trans (read ends)

theorem isRead_word {word : Text} (known : (word, value) ∈ words) : IsRead depth value word := by
  have letters : ∀ p ∈ words, ∀ c ∈ p.1.head?, c ≠ CodePoint.ofChar '"' ∧
      c ≠ CodePoint.ofChar '[' ∧ c ≠ CodePoint.ofChar '\x7b' := by decide
  have written : Written depth value word := .word known
  exact isRead_of_atom written.opens (letters _ known) fun _ => atom_word known _

theorem isRead_numeral (numeral : Numeral value w) : IsRead depth value w := by
  refine isRead_of_atom numeral.opens (fun c first => ?_) (atom_numeral numeral)
  cases numeral with
  | positive unsigned =>
      obtain ⟨c, t, d, rfl, digit⟩ := unsigned.exists_digit
      cases first
      refine ⟨?_, ?_, ?_⟩ <;>
        · rintro rfl
          cases digit
  | negative =>
      cases first
      decide

theorem isRead_str {s : Text} (body : Body s w) :
    IsRead depth (.str s) (CodePoint.ofChar '"' :: (w ++ [CodePoint.ofChar '"'])) := by
  intro fuel rest fits _
  obtain ⟨fuel, rfl⟩ := Nat.exists_eq_succ_of_ne_zero (Nat.ne_zero_of_lt fits)
  rw [enclosed_append]
  exact valueFrom_quote.mpr ⟨s, stringFrom_eq_some_iff.mpr ⟨w, rfl, body⟩, rfl⟩

/-- All that reading a value with its blanks takes. -/
structure Item.IsReady (depth : Nat) (i : Item) : Prop where
  spaced : i.IsSpaced
  opens : Opens i.written
  read : IsRead depth i.value i.written

theorem Item.IsReady.valueFrom {i : Item} (ready : i.IsReady depth) (fits : i.text.length ≤ fuel)
    (ends : Ends rest) :
    valueFrom fuel depth (skipBlanks (i.text ++ rest)) = .ok (i.value, i.after ++ rest) := by
  rw [Item.text, List.length_append, List.length_append] at fits
  rw [Item.text, List.append_assoc, List.append_assoc, skipBlanks_append ready.spaced.1,
    ready.opens.skipBlanks_append]
  exact ready.read _ _ (by omega) (.space_append ready.spaced.2 ends)

/-- An item is read, and reading goes on behind it. -/
theorem itemsFrom_of_continued {i : Item} {values : List Json} {more : Text}
    (ready : i.IsReady depth) (fits : i.text.length ≤ fuel) (ends : Ends more)
    (goesOn : continued (CodePoint.ofChar ']') [i.value]
      (fun t => wrapped (i.value :: ·) (itemsFrom fuel depth t)) (i.after ++ more) =
        .ok (values, rest)) :
    itemsFrom (fuel + 1) depth (skipBlanks (i.text ++ more)) = .ok (values, rest) :=
  itemsFrom_succ.mpr ⟨i.value, _, ready.valueFrom fits ends, goesOn⟩

/-- The items of an array are read up to the bracket. -/
theorem itemsFrom_items {items : List Item} (one : items ≠ [])
    (ready : ∀ i ∈ items, i.IsReady depth)
    (fits : (commas (items.map Item.text)).length < fuel) :
    itemsFrom fuel depth (skipBlanks (commas (items.map Item.text) ++
      CodePoint.ofChar ']' :: rest)) = .ok (items.map Item.value, rest) := by
  induction items generalizing fuel with
  | nil => exact absurd rfl one
  | cons i items ih =>
      obtain ⟨first, ready⟩ := List.forall_mem_cons.mp ready
      obtain ⟨fuel, rfl⟩ := Nat.exists_eq_succ_of_ne_zero (Nat.ne_zero_of_lt fits)
      cases items with
      | nil =>
          exact itemsFrom_of_continued first (Nat.le_of_lt_succ fits)
            (.sign (.inr (.inl rfl)) rest) (continued_close rfl first.spaced.2)
      | cons j items =>
          rw [List.map_cons, List.map_cons, commas_cons] at fits ⊢
          rw [List.length_append, List.length_cons] at fits
          rw [List.append_assoc, List.cons_append]
          refine itemsFrom_of_continued first (by omega) (.sign (.inl rfl) _) ?_
          rw [continued_comma (by decide) first.spaced.2]
          exact wrapped_eq_ok_iff.mpr
            ⟨_, ih (List.cons_ne_nil _ _) ready (by rw [List.map_cons]; omega), rfl⟩

/-- A field is read, and reading goes on behind it. -/
theorem fieldsFrom_of_continued {f : Field} {before fields : List (Text × Json)} {more : Text}
    (named : f.IsNamed) (ready : f.item.IsReady depth) (fits : f.text.length ≤ fuel)
    (ends : Ends more)
    (goesOn : continued (CodePoint.ofChar '\x7d') (f.put before)
      (fieldsFrom fuel depth (f.put before)) (f.item.after ++ more) = .ok (fields, rest)) :
    fieldsFrom (fuel + 1) depth before (skipBlanks (f.text ++ more)) = .ok (fields, rest) := by
  simp only [Field.text, List.length_append, List.length_cons] at fits
  have read := ready.valueFrom (show f.item.text.length ≤ fuel by omega) ends
  let colon := f.after ++ CodePoint.ofChar ':' :: (f.item.text ++ more)
  refine fieldsFrom_succ.mpr ⟨f.body ++ CodePoint.ofChar '"' :: colon, f.name, colon, _, _, _, ?_,
    stringFrom_eq_some_iff.mpr ⟨f.body, rfl, named.body⟩, ?_, read, goesOn⟩
  · rw [Field.text, List.append_assoc, skipBlanks_append named.before]
    simp only [List.cons_append, List.append_assoc]
    rfl
  · rw [skipBlanks_append named.after]
    rfl

/-- The fields of an object are read up to the brace. -/
theorem fieldsFrom_fields {fs : List Field} {before : List (Text × Json)} (one : fs ≠ [])
    (named : ∀ f ∈ fs, f.IsNamed) (ready : ∀ f ∈ fs, f.item.IsReady depth)
    (fits : (commas (fs.map Field.text)).length < fuel) :
    fieldsFrom fuel depth before (skipBlanks (commas (fs.map Field.text) ++
      CodePoint.ofChar '\x7d' :: rest)) = .ok (fs.foldl Field.put before, rest) := by
  induction fs generalizing fuel before with
  | nil => exact absurd rfl one
  | cons f fs ih =>
      obtain ⟨first, ready⟩ := List.forall_mem_cons.mp ready
      obtain ⟨name, named⟩ := List.forall_mem_cons.mp named
      obtain ⟨fuel, rfl⟩ := Nat.exists_eq_succ_of_ne_zero (Nat.ne_zero_of_lt fits)
      cases fs with
      | nil =>
          exact fieldsFrom_of_continued name first (Nat.le_of_lt_succ fits)
            (.sign (.inr (.inr rfl)) rest) (continued_close rfl first.spaced.2)
      | cons g fs =>
          rw [List.map_cons, List.map_cons, commas_cons] at fits ⊢
          rw [List.length_append, List.length_cons] at fits
          rw [List.append_assoc, List.cons_append]
          refine fieldsFrom_of_continued name first (by omega) (.sign (.inl rfl) _) ?_
          rw [continued_comma (by decide) first.spaced.2]
          exact ih (List.cons_ne_nil _ _) named ready (by rw [List.map_cons]; omega)

/-- An array that has items does not begin like one that has none. -/
theorem exists_first_item {items : List Item} (one : items ≠ [])
    (ready : ∀ i ∈ items, i.IsReady depth) (t : Text) :
    ∃ c after, skipBlanks (commas (items.map Item.text) ++ t) = c :: after ∧
      c ≠ CodePoint.ofChar ']' := by
  obtain ⟨i, items, rfl⟩ := List.exists_cons_of_ne_nil one
  obtain ⟨⟨spaced, opens, -⟩, -⟩ := List.forall_mem_cons.mp ready
  rw [List.map_cons, Item.text, commas_append, commas_append, List.append_assoc, List.append_assoc,
    skipBlanks_append spaced.1, opens.skipBlanks_append]
  obtain ⟨c, w, written, -, bracket⟩ := opens
  exact ⟨c, _, by rw [written]; rfl, bracket⟩

/-- An object that has fields does not begin like one that has none. -/
theorem exists_first_field {fs : List Field} (one : fs ≠ []) (named : ∀ f ∈ fs, f.IsNamed)
    (t : Text) : ∃ c after, skipBlanks (commas (fs.map Field.text) ++ t) = c :: after ∧
      c ≠ CodePoint.ofChar '\x7d' := by
  obtain ⟨f, fs, rfl⟩ := List.exists_cons_of_ne_nil one
  obtain ⟨name, -⟩ := List.forall_mem_cons.mp named
  rw [List.map_cons, Field.text, commas_append, List.append_assoc, skipBlanks_append name.before]
  exact ⟨_, _, congrArg (skipBlanks <| · ++ t) (commas_append [CodePoint.ofChar '"'] _ _),
    by decide⟩

theorem Written.isRead (written : Written depth value w) : IsRead depth value w := by
  induction written with
  | word known => exact isRead_word known
  | number numeral => exact isRead_numeral numeral
  | str body => exact isRead_str body
  | @noItem depth b space =>
      intro fuel rest fits ends
      obtain ⟨fuel, rfl⟩ := Nat.exists_eq_succ_of_ne_zero (Nat.ne_zero_of_lt fits)
      rw [enclosed_append, valueFrom_bracket]
      exact opened_close rfl space
  | @items depth items one spaced values ih =>
      intro fuel rest fits ends
      obtain ⟨fuel, rfl⟩ := Nat.exists_eq_succ_of_ne_zero (Nat.ne_zero_of_lt fits)
      have ready : ∀ i ∈ items, i.IsReady depth :=
        fun i mem => ⟨spaced i mem, (values i mem).opens, ih i mem⟩
      simp only [List.length_append, List.length_cons] at fits
      rw [enclosed_append, valueFrom_bracket, opened_other (exists_first_item one ready _)]
      exact wrapped_eq_ok_iff.mpr ⟨_, itemsFrom_items one ready (by omega), rfl⟩
  | @noField depth b space =>
      intro fuel rest fits ends
      obtain ⟨fuel, rfl⟩ := Nat.exists_eq_succ_of_ne_zero (Nat.ne_zero_of_lt fits)
      rw [enclosed_append, valueFrom_brace]
      exact opened_close rfl space
  | @fields depth fs one named values ih =>
      intro fuel rest fits ends
      obtain ⟨fuel, rfl⟩ := Nat.exists_eq_succ_of_ne_zero (Nat.ne_zero_of_lt fits)
      have ready : ∀ f ∈ fs, f.item.IsReady depth :=
        fun f mem => ⟨(named f mem).item, (values f mem).opens, ih f mem⟩
      simp only [List.length_append, List.length_cons] at fits
      rw [enclosed_append, valueFrom_brace, opened_other (exists_first_field one named _)]
      exact wrapped_eq_ok_iff.mpr ⟨_, fieldsFrom_fields one named ready (by omega), rfl⟩

/-- A text is read as a value exactly if it is JSON of that value. -/
theorem parse_eq_ok_iff : parse t = .ok value ↔ IsDocument value t := by
  refine ⟨isDocument_of_parse, ?_⟩
  rintro ⟨i, ⟨before, after⟩, written, rfl, rfl⟩
  have fits : i.written.length ≤ 2 * i.text.length + 2 := by
    rw [Item.text, List.length_append, List.length_append]
    omega
  have ends : Ends i.after := i.after.append_nil ▸ .space_append after .nil
  have blank : skipBlanks i.after = [] :=
    (i.after.append_nil ▸ skipBlanks_append after []).trans rfl
  rw [parse, Item.text, skipBlanks_append before, written.opens.skipBlanks_append, ← Item.text,
    written.isRead _ _ fits ends]
  simp only [blank]
  rfl

/-- A text is JSON of one value at most. -/
theorem IsDocument.unique {other : Json} (h : IsDocument value t) (h' : IsDocument other t) :
    value = other :=
  Except.ok.inj ((parse_eq_ok_iff.mpr h).symm.trans (parse_eq_ok_iff.mpr h'))

end Playground.Json
