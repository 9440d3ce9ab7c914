import Playground.Proofs.Source.Clauses
import Playground.Proofs.Source.Layout

/-!
# Texts in front of modules

A module is read item by item, and an item is read without regard to what was read
before. So a text can be put in front of any module if it is read to its end there,
whatever comes next. Such texts can be put one behind the other, with as many line
feeds between them as one likes, and what comes of it is a module. If every text is one
statement on a line of its own, the items of the module are just these statements.
-/

namespace Playground.Source

open Reader

variable {g : Grammar} {s s' t w : List Char} {c d : Cursor}

/-! ## Line feeds -/

/-- There is nothing but line feeds in a text. -/
def IsFeeds (s : List Char) : Prop :=
  ∀ c ∈ s, c = '\n'

theorem front_of_isFeeds (h : IsFeeds s) : front s = [] := by
  induction s with
  | nil => rfl
  | cons c rest ih =>
      obtain ⟨rfl, rest⟩ := List.forall_mem_cons.mp h
      rw [front_lineFeed]
      exact ih rest

theorem markupComment?_pos {n : Nat} (h : markupComment? s = some n) : 0 < n := by
  unfold markupComment? at h
  split at h
  · cases h
    omega
  · cases h
    omega
  · cases h

/-- One comment in the manner of markup needs more than one character. -/
theorem skipMarkup_succ {fuel : Nat} (enough : c.rest.length ≤ fuel) :
    c.skipMarkup (fuel + 1) = c.skipMarkup fuel := by
  induction fuel generalizing c with
  | zero =>
      have none : c.rest = [] := List.length_eq_zero_iff.mp (Nat.le_zero.mp enough)
      have rest : c.skipTrivia.rest = [] := by
        show c.rest.drop _ = []
        rw [none, List.drop_nil]
      simp only [Cursor.skipMarkup, rest]
      rfl
  | succ fuel ih =>
      have le : c.skipTrivia.rest.length ≤ c.rest.length := by
        show (c.rest.drop _).length ≤ _
        rw [List.length_drop]
        exact Nat.sub_le _ _
      rw [Cursor.skipMarkup, Cursor.skipMarkup]
      cases h : markupComment? c.skipTrivia.rest with
      | none => rfl
      | some n =>
          refine ih ?_
          have pos := markupComment?_pos h
          have short := markupComment?_le h
          show (c.skipTrivia.rest.drop n).length ≤ fuel
          rw [List.length_drop]
          omega

theorem skipMarkup_eq {fuel : Nat} (same : c.skipTrivia = d.skipTrivia) :
    c.skipMarkup fuel = d.skipMarkup fuel := by
  cases fuel with
  | zero => exact same
  | succ fuel => simp only [Cursor.skipMarkup, same]

/-- A line feed in front of an item is passed over. -/
theorem beginOperand_lineFeed (h : c.rest = '\n' :: s) :
    beginOperand c = beginOperand (c.advance 1) := by
  have rest : (c.advance 1).rest = s := by
    show c.rest.drop 1 = s
    rw [h, List.drop_one, List.tail_cons]
  have trivia : triviaLength c.rest = triviaLength s + 1 := by
    rw [h]
    show triviaFrom (s.length + 1 + 1) 0 ('\n' :: s) = triviaFrom (s.length + 1) 0 s + 1
    rw [triviaFrom, if_pos (by decide), triviaFrom_add]
    exact Nat.add_comm _ _
  have same : c.skipTrivia = (c.advance 1).skipTrivia := by
    rw [Cursor.skipTrivia, Cursor.skipTrivia, rest, trivia, Nat.add_comm]
    simp only [Cursor.advance, List.drop_drop, Nat.add_assoc]
  have markup : c.skipMarkup c.rest.length = (c.advance 1).skipMarkup (c.advance 1).rest.length := by
    rw [rest, h, List.length_cons, skipMarkup_eq same]
    exact skipMarkup_succ (Nat.le_of_eq (congrArg List.length rest))
  show some (_, _) = some (_, _)
  rw [markup]

theorem reads_item_lineFeed {P : Item → Prop} (h : Reads (item g) s P s') :
    Reads (item g) ('\n' :: s) P s' := by
  intro c hc
  have rest : (c.advance 1).rest = s := by
    show c.rest.drop 1 = s
    rw [hc, List.drop_one, List.tail_cons]
  obtain ⟨found, d, read, holds, hd⟩ := h (c.advance 1) rest
  obtain ⟨start, e, begun, read⟩ := bind_eq_some_iff.mp read
  refine ⟨found, d, bind_eq_some_iff.mpr ⟨start, e, ?_, read⟩, holds, hd⟩
  rwa [beginOperand_lineFeed hc]

/-! ## Item by item -/

/-- A text is read to its end, item by item. No item begins like the first line of a
module that a system is to run. -/
inductive Accepts (g : Grammar) : List Char → Prop where
  | done {s : List Char} (feeds : IsFeeds s) : Accepts g s
  | item {s s' : List Char} (begins : ∀ c ∈ s.head?, c ≠ '#') (read : Passes (item g) s s')
      (shorter : s'.length < s.length) (later : Accepts g s') : Accepts g s

theorem Accepts.lineFeed (h : Accepts g s) : Accepts g ('\n' :: s) := by
  cases h with
  | done feeds => exact .done (List.forall_mem_cons.mpr ⟨rfl, feeds⟩)
  | item _ read shorter later =>
      refine .item ?_ (reads_item_lineFeed read) (Nat.lt_succ_of_lt shorter) later
      rintro _ ⟨⟩
      decide

theorem Accepts.feeds (feeds : IsFeeds t) (h : Accepts g s) : Accepts g (t ++ s) := by
  induction t with
  | nil => exact h
  | cons c rest ih =>
      obtain ⟨rfl, rest⟩ := List.forall_mem_cons.mp feeds
      exact (ih rest).lineFeed

variable [g.Sound]

/-- What is read off a text with nothing but line feeds leaves nothing but line feeds. -/
theorem isFeeds_of_item {found : Item} (read : Source.item g c = some (found, d))
    (feeds : IsFeeds c.rest) : IsFeeds d.rest := by
  obtain ⟨new, leads, -⟩ := placed_of_item read
  obtain ⟨front, rest, -⟩ := leads.rest
  rw [rest] at feeds
  exact fun x mem => feeds x (List.mem_append_right _ mem)

/-- An accepted text is read up to the line feeds at its end. -/
theorem Accepts.many (h : Accepts g s) (hc : c.rest = s) :
    ∃ found d, many (Source.item g) c = some (found, d) ∧ IsFeeds d.rest := by
  let step (found : List Item) : Reader (List Item) := do return (← Source.item g) :: found
  have next {i : Item} {c d : Cursor} (read : Source.item g c = some (i, d)) (found : List Item) :
      step found c = some (i :: found, d) :=
    bind_eq_some_iff.mpr ⟨i, d, read, rfl⟩
  have last (fuel : Nat) (found : List Item) {c : Cursor} (feeds : IsFeeds c.rest) :
      ∃ more d, iterateFrom step fuel found c = some (more, d) ∧ IsFeeds d.rest := by
    induction fuel generalizing found c with
    | zero => exact ⟨found, c, rfl, feeds⟩
    | succ fuel ih =>
        rw [iterateFrom]
        cases read : step found c with
        | none => exact ⟨found, c, rfl, feeds⟩
        | some after =>
            obtain ⟨more, d⟩ := after
            obtain ⟨i, e, own, same⟩ := bind_eq_some_iff.mp read
            obtain ⟨rfl, rfl⟩ := pure_eq_some_iff.mp same
            exact ih _ (isFeeds_of_item own feeds)
  have all (fuel : Nat) (enough : s.length < fuel) (found : List Item) :
      ∃ more d, iterateFrom step fuel found c = some (more, d) ∧ IsFeeds d.rest := by
    induction h generalizing fuel found c with
    | done feeds => exact last fuel found (by rwa [hc])
    | item _ read shorter _ ih =>
        cases fuel with
        | zero => cases enough
        | succ fuel =>
            obtain ⟨i, d, read, -, hd⟩ := read c hc
            rw [iterateFrom, next read]
            exact ih hd fuel (by omega) (i :: found)
  obtain ⟨found, d, read, feeds⟩ := all (c.rest.length + 1) (by rw [hc]; exact Nat.lt_succ_self _) []
  exact ⟨found.reverse, d, bind_eq_some_iff.mpr ⟨found, d, read, rfl⟩, feeds⟩

/-! ## In front of modules -/

/-- Whatever is accepted is accepted behind a text, at any depth of calls that the
text itself may need. -/
def IsComplete (t : List Char) : Prop :=
  ∀ depth, 4 * t.length + 16 ≤ depth → ∀ s, Accepts (grammar depth) s →
    Accepts (grammar depth) (t ++ s)

omit [g.Sound]

theorem IsComplete.append (h : IsComplete s) (h' : IsComplete t) : IsComplete (s ++ t) := by
  intro depth enough u accepts
  rw [List.length_append] at enough
  rw [List.append_assoc]
  exact h depth (by omega) _ (h' depth (by omega) u accepts)

theorem IsFeeds.complete (h : IsFeeds t) : IsComplete t :=
  fun _ _ _ accepts => accepts.feeds h

/-- An item that is read at some depth of calls, whatever comes behind it. -/
theorem IsComplete.of_item (begins : ∃ c ∈ t.head?, c ≠ '#')
    (read : ∀ depth s, Passes (item (grammar (depth + 16))) (t ++ s) s) : IsComplete t := by
  intro depth enough s accepts
  obtain ⟨n, rfl⟩ : ∃ n, depth = n + 16 := ⟨depth - 16, by omega⟩
  obtain ⟨c, hc, ne⟩ := begins
  cases t with
  | nil => cases hc
  | cons d rest =>
      cases hc
      refine .item ?_ (read n s) ?_ accepts
      · rintro _ ⟨⟩
        exact ne
      · rw [List.length_append, List.length_cons]
        omega

theorem interpreterLine_eq (begins : ∀ x ∈ c.rest.head?, x ≠ '#') :
    interpreterLine c = some ((), c) := by
  unfold interpreterLine
  rw [get_bind_eq]
  generalize c.rest = rest at begins
  split
  · exact absurd rfl (begins '#' rfl)
  · rfl

/-- A source whose items are read up to the line feeds at its end is well formed. -/
theorem outline?_of_many {items : List Item} (begins : ∀ x ∈ t.head?, x ≠ '#')
    (read : many (item (grammar (4 * t.length + 16))) { rest := t } = some (items, c))
    (feeds : IsFeeds c.rest) : ∃ o, outline? t = some o ∧ o.items = items := by
  have front : front c.rest = [] := front_of_isFeeds feeds
  obtain ⟨n, d, last, -, rest⟩ := passes_beginOperand (by rw [front]; rfl) c rfl
  have whole : wholeSource (grammar (4 * t.length + 16)) { rest := t } = some (items, d) := by
    refine bind_eq_some_iff.mpr ⟨(), _, interpreterLine_eq begins, ?_⟩
    refine bind_eq_some_iff.mpr ⟨items, c, read, ?_⟩
    refine bind_eq_some_iff.mpr ⟨n, d, last, ?_⟩
    refine bind_eq_some_iff.mpr ⟨d, d, rfl, ?_⟩
    refine bind_eq_some_iff.mpr ⟨(), d, guard_eq_some_iff.mpr ⟨?_, rfl⟩, rfl⟩
    rw [rest, front]
    rfl
  refine ⟨{ items, calls := d.calls }, ?_, rfl⟩
  unfold outline?
  simp only [whole]

/-- A complete text is well formed. -/
theorem IsComplete.isSome_outline? (h : IsComplete t) : (outline? t).isSome = true := by
  have accepts : Accepts (grammar (4 * t.length + 16)) t := by
    have := h _ (Nat.le_refl _) [] (.done (List.forall_mem_nil _))
    rwa [List.append_nil] at this
  have begins : ∀ x ∈ t.head?, x ≠ '#' := by
    cases accepts with
    | done feeds =>
        intro x hx
        rw [feeds x (List.mem_of_mem_head? hx)]
        decide
    | item begins => exact begins
  obtain ⟨items, c, read, feeds⟩ := accepts.many (c := { rest := t }) rfl
  obtain ⟨o, found, -⟩ := outline?_of_many begins read feeds
  rw [found]
  rfl

/-! ## Statement by statement -/

theorem noWord_nil : NoWord [] :=
  rfl

theorem fails_operand_nil {place : Place} {constructor : Reader Shape} :
    Fails (operandWith g place constructor) [] := by
  unfold operandWith
  refine (passes_beginOperand rfl).bind_fails fun _ _ => ?_
  refine reads_look.bind_fails ?_
  rintro _ rfl
  exact fails_failure

theorem reads_importAhead_nil : Reads importAhead [] (· = false) [] :=
  (fails_keyword_of_noWord noWord_nil).bind.test

theorem fails_statement_nil (depth : Nat) : Fails (statementBody (grammar (depth + 1))) [] := by
  unfold statementBody
  refine (passes_beginOperand rfl).bind_fails fun _ _ => ?_
  refine reads_look.bind_fails ?_
  rintro _ rfl
  refine (reads_lookWord_of_noWord noWord_nil).bind_fails ?_
  rintro _ rfl
  refine reads_importAhead_nil.bind_fails ?_
  rintro _ rfl
  refine (fails_word noWord_nil).bind.test.bind_fails ?_
  rintro _ rfl
  refine (fails_word noWord_nil).bind.test.bind_fails ?_
  rintro _ rfl
  refine (passes_guard (by decide)).bind_fails fun _ _ => ?_
  exact fails_operand_nil.bind.bind.bind.bind

/-- There is no item at the end of a source. -/
theorem fails_item_nil (depth : Nat) : Fails (item (grammar (depth + 2))) [] := by
  unfold item
  refine (passes_beginOperand rfl).bind_fails fun _ _ => ?_
  refine reads_importAhead_nil.bind_fails ?_
  rintro _ rfl
  have noExport : Reads (aheadWord "export") [] (· = false) [] := by
    refine (reads_lookWord_of_noWord noWord_nil).bind ?_
    rintro _ rfl
    exact .pure rfl
  refine noExport.bind_fails ?_
  rintro _ rfl
  refine (reads_ahead "@").bind_fails ?_
  rintro _ rfl
  exact Fails.bind (fails_statement_nil depth)

/-- Statements on lines of their own are read one by one, and nothing else is. -/
theorem outline?_of_lines {ι : Type} {f : ι → List Char} {R : ι → Item → Prop} {first : ι}
    {rest : List ι} (begins : ∀ i ∈ first :: rest, ∃ c ∈ (f i).head?, c ≠ '#')
    (read : ∀ i ∈ first :: rest, ∀ depth s,
      Reads (item (grammar (depth + 16))) (f i ++ s) (R i) s) :
    ∃ o, outline? (f first ++ rest.flatMap fun i => '\n' :: f i) = some o ∧
      List.Forall₂ R (first :: rest) o.items := by
  -- All lines but the first begin with the line feed before them.
  let pieces : List (List Char × ι) := (f first, first) :: rest.map fun i => ('\n' :: f i, i)
  generalize text : (f first ++ rest.flatMap fun i => '\n' :: f i) = t
  have joined : t = pieces.flatMap Prod.fst ++ [] := by
    simp [pieces, ← text, List.flatMap_map]
  have same : pieces.map Prod.snd = first :: rest := by
    simp [pieces, Function.comp_def]
  have each : ∀ piece ∈ pieces, ∀ s, True →
      Reads (item (grammar (4 * t.length + 16))) (piece.1 ++ s) (R piece.2) s := by
    obtain ⟨own, others⟩ := List.forall_mem_cons.mp read
    refine List.forall_mem_cons.mpr ⟨fun s _ => own _ s, ?_⟩
    exact List.forall_mem_map.mpr fun i mem s _ => reads_item_lineFeed (others i mem _ s)
  have proper : ∀ piece ∈ pieces, piece.1 ≠ [] := by
    obtain ⟨c, hc, -⟩ := begins first List.mem_cons_self
    refine List.forall_mem_cons.mpr ⟨fun none => ?_, ?_⟩
    · rw [show f first = [] from none] at hc
      cases hc
    · exact List.forall_mem_map.mpr fun i _ => List.cons_ne_nil _ _
  obtain ⟨items, c, many, all, ends⟩ := reads_many each proper (fun _ _ _ => trivial) trivial
    (fails_item_nil (4 * t.length + 14)) { rest := t } joined
  have starts : ∀ x ∈ t.head?, x ≠ '#' := by
    obtain ⟨c, hc, ne⟩ := begins first List.mem_cons_self
    intro x hx
    rw [← text, List.head?_append, Option.mem_def.mp hc, Option.some_or] at hx
    cases hx
    exact ne
  obtain ⟨o, found, rfl⟩ := outline?_of_many starts many (by rw [ends]; exact List.forall_mem_nil _)
  refine ⟨o, found, ?_⟩
  rw [← same]
  exact List.forall₂_map_left_iff.mpr all

/-! ## What the linker writes -/

theorem readsWords_grammar (depth : Nat) : ReadsWords (grammar (depth + 1)) :=
  fun h begins closes => reads_expression_word h begins closes

theorem readsValue_word {v : List Char} {depth : Nat} (value : IsValueWord v) :
    ReadsValue (grammar (depth + 1)) v := by
  intro s
  have begins : Begins (' ' :: (v ++ ';' :: s)) v (';' :: s) :=
    (value.word.begins_append (.of_head (by decide))).space
  refine (reads_expression_word value begins closes_semicolon).bind fun _ h => ?_
  exact (passes_guard h).bind fun _ _ => .pure trivial

theorem readsValue_frozen {entries : List (Text × List Char)} {depth : Nat}
    (values : ∀ entry ∈ entries, IsValueWord entry.2) :
    ReadsValue (grammar (depth + 3)) (frozenChars entries) := by
  intro s
  have object (s : List Char) (closes : Closes .never s) :
      Reads ((grammar (depth + 2)).expression .inner) (objectChars entries ++ s)
        (·.value = true) s :=
    reads_expression_object (readsWords_grammar depth) values closes
  refine (reads_expression_frozen object closes_semicolon).bind fun _ h => ?_
  exact (passes_guard h).bind fun _ _ => .pure trivial

/-- The declaration of a name. -/
theorem complete_declare {v : List Char} (name : IsName w)
    (value : ∀ depth, ReadsValue (grammar (depth + 3)) v) : IsComplete (declareChars w v) := by
  refine .of_item ⟨'c', rfl, by decide⟩ fun depth s => ?_
  have begins := begins_declareChars w v s
  refine passes_item_statement begins (front_solid (by decide)) (by decide) (by decide) ?_
  exact passes_statement_const (.of_head (by decide)) (passes_declaration name (value (depth + 11)))

theorem complete_export {spec : Spec} {more : List Spec}
    (given : ∀ spec' ∈ spec :: more, IsGiven spec') : IsComplete (exportChars (spec :: more)) :=
  .of_item ⟨'e', rfl, by decide⟩ fun _ _ => passes_item_export given

end Playground.Source
