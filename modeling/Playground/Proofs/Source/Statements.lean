import Playground.Proofs.Source.Keywords

/-!
# The statements of a source

The outline keeps of a statement only what linking needs. Here each statement is kept
with its whole stretch, from its first lexeme to its last one. The stretches are one
behind the other, and all that stands in front of them, between them and behind them is
blanks and comments, and maybe the line for an interpreter.

What may be replaced in a source lies in these stretches, and so does each literal of a
dynamic import. An import statement is replaced as a whole.
-/

namespace Playground.Source

open Reader

/-! ## Blanks and comments between statements -/

/-- Blanks and comments, those in the manner of markup among them. -/
inductive IsGap : List Char → Prop
  | trivia {t : List Char} (h : IsTrivia t) : IsGap t
  | markup {before sign body more : List Char} (h : IsTrivia before)
      (opens : sign = "<!--".toList ∨ sign = "-->".toList)
      (line : ∀ c ∈ body, c ≠ '\n' ∧ c ≠ '\u2028' ∧ c ≠ '\u2029') (later : IsGap more) :
      IsGap (before ++ (sign ++ body) ++ more)

/-- The first line of a source that a system is to run, if it is one. -/
def IsInterpreterLine (t : List Char) : Prop :=
  t = [] ∨ ∃ body, t = '#' :: '!' :: body ∧ '\n' ∉ body

variable {source : List Char} {c d : Cursor} {n : Nat}

theorem markupComment?_eq_some (h : markupComment? source = some n) : ∃ sign body,
    source.take n = sign ++ body ∧ (sign = "<!--".toList ∨ sign = "-->".toList) ∧
      ∀ c ∈ body, c ≠ '\n' ∧ c ≠ '\u2028' ∧ c ≠ '\u2029' := by
  have line (rest : List Char) : ∀ c ∈ rest.takeWhile
      fun c => !(c == '\n' || c == '\u2028' || c == '\u2029'),
      c ≠ '\n' ∧ c ≠ '\u2028' ∧ c ≠ '\u2029' := by
    intro c mem
    simpa [not_or, and_assoc] using List.all_eq_true.mp List.all_takeWhile c mem
  have taken (sign rest : List Char) (p : Char → Bool) :
      (sign ++ rest).take (sign.length + (rest.takeWhile p).length) =
        sign ++ rest.takeWhile p := by
    rw [List.take_length_add_append, ← List.prefix_iff_eq_take.mp (List.takeWhile_prefix _)]
  unfold markupComment? at h
  simp only [] at h
  split at h
  · next rest =>
      cases h
      exact ⟨"<!--".toList, _, taken "<!--".toList rest _, .inl rfl, line rest⟩
  · next rest =>
      cases h
      exact ⟨"-->".toList, _, taken "-->".toList rest _, .inr rfl, line rest⟩
  · cases h

theorem Cursor.In.isGap (inside : c.In source) (fuel : Nat) :
    IsGap (between source c.pos (c.skipMarkup fuel).pos) := by
  induction fuel generalizing c with
  | zero => exact .trivia inside.isTrivia
  | succ fuel ih =>
      unfold Cursor.skipMarkup
      simp only []
      split
      · next n comment =>
          have first := Cursor.Leads.skipTrivia c
          have second := Cursor.Leads.advance _ (markupComment?_le comment)
          have inside' : c.skipTrivia.In source := inside.of_leads first
          have later := ih (inside'.of_leads second)
          obtain ⟨sign, body, taken, opens, line⟩ := markupComment?_eq_some comment
          have passed : between source c.skipTrivia.pos (c.skipTrivia.advance n).pos =
              sign ++ body := by
            rw [← taken]
            show (source.drop c.skipTrivia.pos).take (c.skipTrivia.pos + n - c.skipTrivia.pos) = _
            rw [← inside', Nat.add_sub_cancel_left]
          have gap := IsGap.markup inside.isTrivia opens line later
          rwa [← passed, between_append first.pos_le second.pos_le, between_append
            (first.trans second).pos_le (Cursor.Leads.skipMarkup fuel _).pos_le] at gap
      · exact .trivia inside.isTrivia

theorem isInterpreterLine_take (h : interpreterLine { rest := source } = some ((), c)) :
    IsInterpreterLine (source.take c.pos) := by
  unfold interpreterLine at h
  rw [get_bind_eq] at h
  simp only [] at h
  split at h
  · next rest =>
      obtain ⟨_, _, taken, done⟩ := bind_eq_some_iff.mp h
      obtain ⟨-, rfl⟩ := take_eq_some_iff.mp taken
      obtain ⟨-, rfl⟩ := pure_eq_some_iff.mp done
      refine .inr ⟨rest.takeWhile (· != '\n'), ?_, fun mem => ?_⟩
      · show ('#' :: '!' :: rest).take (0 + (2 + (rest.takeWhile (· != '\n')).length)) = _
        rw [Nat.zero_add, Nat.add_comm, List.take_succ_cons, List.take_succ_cons,
          ← List.prefix_iff_eq_take.mp (List.takeWhile_prefix _)]
      · simpa using List.all_eq_true.mp List.all_takeWhile _ mem
  · obtain ⟨-, rfl⟩ := pure_eq_some_iff.mp h
    exact .inl rfl

/-! ## Statements with their stretches -/

/-- A statement and its stretch. -/
def located (g : Grammar) : Reader (Item × Span) := do
  let c ← get
  let found ← item g
  return (found, ⟨(c.skipMarkup c.rest.length).pos, (← get).pos⟩)

/-- The statements of a source with their stretches. -/
def statements? (source : List Char) : Option (List (Item × Span)) :=
  let read : Reader (List (Item × Span)) := do
    interpreterLine
    many (located (grammar (depthFor source)))
  (read { rest := source }).map Prod.fst

variable {g : Grammar}

theorem located_eq_some_iff {found : Item} {s : Span} : located g c = some ((found, s), d) ↔
    item g c = some (found, d) ∧ s = ⟨(c.skipMarkup c.rest.length).pos, d.pos⟩ := by
  unfold located
  rw [get_bind_eq]
  simp only [bind_eq_some_iff]
  constructor
  · rintro ⟨_, _, read, _, _, ⟨⟩, h⟩
    obtain ⟨⟨⟩, rfl⟩ := pure_eq_some_iff.mp h
    exact ⟨read, rfl⟩
  · rintro ⟨read, rfl⟩
    exact ⟨_, _, read, _, _, rfl, rfl⟩

theorem item_eq_map : item g c = (located g c).map (Prod.map Prod.fst id) := by
  show _ = ((item g c).bind _).map _
  cases item g c <;> rfl

/-- Readers that find more do so wherever the others find less. -/
theorem iterateFrom_eq_map {α β : Type} {step : α → Reader α} {step' : β → Reader β} {f : β → α}
    (same : ∀ b c, step (f b) c = (step' b c).map (Prod.map f id)) (fuel : Nat) (b : β)
    (c : Cursor) :
    iterateFrom step fuel (f b) c = (iterateFrom step' fuel b c).map (Prod.map f id) := by
  induction fuel generalizing b c with
  | zero => rfl
  | succ fuel ih =>
      rw [iterateFrom, iterateFrom, same]
      cases step' b c with
      | none => rfl
      | some next => exact ih next.1 next.2

theorem many_located {items : List Item} (h : many (item g) c = some (items, d)) :
    ∃ l, many (located g) c = some (l, d) ∧ l.map Prod.fst = items := by
  have same (before : List (Item × Span)) (c : Cursor) :
      (do return (← item g) :: before.map Prod.fst : Reader (List Item)) c =
        ((do return (← located g) :: before : Reader _) c).map
          (Prod.map (List.map Prod.fst) id) := by
    show (item g c).bind _ = ((located g c).bind _).map _
    rw [item_eq_map]
    cases located g c <;> rfl
  obtain ⟨found, _, read, h⟩ := bind_eq_some_iff.mp h
  obtain ⟨rfl, rfl⟩ := pure_eq_some_iff.mp h
  have both : iterate (fun found => do return (← item g) :: found) [] c =
      (iterate (fun found => do return (← located g) :: found) [] c).map
        (Prod.map (List.map Prod.fst) id) :=
    @iterateFrom_eq_map _ _ _ _ (List.map Prod.fst) same (c.rest.length + 1) [] c
  obtain ⟨⟨l, e⟩, readAll, ⟨⟩⟩ := Option.map_eq_some_iff.mp (both.symm.trans read)
  exact ⟨l.reverse, bind_eq_some_iff.mpr ⟨l, _, readAll, rfl⟩, List.map_reverse⟩

/-- The stretch of all of a statement, where it is kept. -/
def Item.span? : Item → Option Span
  | .importing i => some i.span
  | .exporting span _ => some span
  | .other => none

theorem Item.Read.span_eq {found : Item} (read : found.Read g c d) (solid : c.skipTrivia = c) :
    ∀ t ∈ found.span?, t = ⟨c.pos, d.pos⟩ := by
  cases read with
  | importing read =>
      rintro _ ⟨⟩
      rw [span_of_importStatement read, solid]
  | exporting => exact fun _ same => (Option.some.inj same).symm
  | other => nofun

/-- Statements from one place to another one, one behind the other, with the literals that were found
in them. -/
inductive Row (source : List Char) : Nat → List (Item × Span) → List ImportSite → Nat → Prop where
  | nil (pos : Nat) : Row source pos [] [] pos
  | cons {pos stop : Nat} {item : Item} {s : Span} {rest : List (Item × Span)}
      {sooner later : List ImportSite} (after : pos ≤ s.start)
      (gap : IsGap (between source pos s.start)) (proper : s.start ≤ s.stop)
      (whole : ∀ t ∈ item.span?, t = s) (within : ∀ t ∈ item.stretch?, t.Within s.start s.stop)
      (found : Found s.start s.stop sooner) (row : Row source s.stop rest later stop) :
      Row source pos ((item, s) :: rest) (later ++ sooner) stop

theorem row_of_chain [g.Sound] {l : List (Item × Span)} (inside : c.In source)
    (h : Chain (located g) c l d) : ∃ new, c.Leads new d ∧
      Row source c.pos l (new.map ImportCall.literal) d.pos := by
  induction h with
  | nil c => exact ⟨[], .refl c, .nil _⟩
  | @cons c d e found rest first _ ih =>
      obtain ⟨item, s⟩ := found
      obtain ⟨read, rfl⟩ := located_eq_some_iff.mp first
      have read := read_of_item read
      have skipped := Cursor.Leads.skipMarkup c.rest.length c
      obtain ⟨sooner, leads, placed⟩ := read.placed
      have before := skipped.trans leads
      rw [List.append_nil] at before
      obtain ⟨later, leads', row⟩ := ih (inside.of_leads before)
      refine ⟨later ++ sooner, before.trans leads', ?_⟩
      rw [List.map_append]
      exact .cons skipped.pos_le (inside.isGap _) leads.pos_le
        (read.span_eq (Cursor.skipTrivia_skipMarkup _ c)) placed.within leads.found row

/-! ## Whole sources -/

/-- What stands in front of some stretches, between them and behind them. -/
def gapsOf (source : List Char) : Nat → List Span → List (List Char)
  | pos, [] => [source.drop pos]
  | pos, s :: rest => between source pos s.start :: gapsOf source s.stop rest

/-- Statements stand in a source with nothing between them that is read. -/
structure Stand (source : List Char) (statements : List (Item × Span)) : Prop where
  ordered : (statements.map Prod.snd).Pairwise fun a b => a.stop ≤ b.start
  proper : ∀ s ∈ statements.map Prod.snd, s.start ≤ s.stop
  gaps : ∃ start, IsInterpreterLine (source.take start) ∧
    ∀ gap ∈ gapsOf source start (statements.map Prod.snd), IsGap gap

namespace Row

variable {start stop : Nat} {l : List (Item × Span)} {sites : List ImportSite}

theorem within (row : Row source start l sites stop) :
    ∀ s ∈ l.map Prod.snd, start ≤ s.start ∧ s.start ≤ s.stop := by
  induction row with
  | nil => exact List.forall_mem_nil _
  | cons after _ proper _ _ _ _ ih =>
      refine List.forall_mem_cons.mpr ⟨⟨after, proper⟩, fun s mem => ?_⟩
      have := ih s mem
      omega

theorem ordered (row : Row source start l sites stop) :
    (l.map Prod.snd).Pairwise fun a b => a.stop ≤ b.start := by
  induction row with
  | nil => exact List.Pairwise.nil
  | cons _ _ _ _ _ _ row ih =>
      exact List.pairwise_cons.mpr ⟨fun s mem => (row.within s mem).1, ih⟩

theorem gaps (row : Row source start l sites stop) (last : IsGap (source.drop stop)) :
    ∀ gap ∈ gapsOf source start (l.map Prod.snd), IsGap gap := by
  induction row with
  | nil => exact List.forall_mem_singleton.mpr last
  | cons _ gap _ _ _ _ _ ih => exact List.forall_mem_cons.mpr ⟨gap, ih last⟩

theorem whole (row : Row source start l sites stop) :
    ∀ statement ∈ l, ∀ t ∈ statement.1.span?, t = statement.2 := by
  induction row with
  | nil => exact List.forall_mem_nil _
  | cons _ _ _ whole _ _ _ ih => exact List.forall_mem_cons.mpr ⟨whole, ih⟩

theorem stretches (row : Row source start l sites stop) :
    ∀ statement ∈ l, ∀ t ∈ statement.1.stretch?, statement.2.Holds t := by
  induction row with
  | nil => exact List.forall_mem_nil _
  | cons _ _ _ _ within _ _ ih =>
      exact List.forall_mem_cons.mpr ⟨fun t there => ⟨(within t there).after,
        (within t there).before⟩, ih⟩

theorem literals (row : Row source start l sites stop) :
    ∀ site ∈ sites, ∃ statement ∈ l, statement.2.Holds site.span := by
  induction row with
  | nil => exact List.forall_mem_nil _
  | cons _ _ _ _ _ found _ ih =>
      refine List.forall_mem_append.mpr ⟨fun site mem => ?_, fun site mem => ?_⟩
      · obtain ⟨statement, there, holds⟩ := ih site mem
        exact ⟨statement, List.mem_cons_of_mem _ there, holds⟩
      · have within := found.within site mem
        exact ⟨_, List.mem_cons_self, within.after, within.before⟩

end Row

/-- Every source that has an outline consists of statements. -/
theorem statements_of_outline {o : Outline} (h : outline? source = some o) :
    ∃ l, statements? source = some l ∧ l.map Prod.fst = o.items ∧ Stand source l ∧
      ∃ start stop new, Row source start l new stop ∧ o.sites ⊆ new := by
  obtain ⟨c, d, line, many, done, calls⟩ := parts_of_outline h
  obtain ⟨l, many, items⟩ := many_located many
  have begins : Cursor.In source { rest := source } := rfl
  have first := leads_of_quiet line
  obtain ⟨new, leads, row⟩ := row_of_chain (begins.of_leads first) (chain_of_many many)
  have upTo := first.trans leads
  rw [List.append_nil] at upTo
  have inside : d.In source := begins.of_leads upTo
  have stop := (upTo.trans (Cursor.Leads.skipMarkup d.rest.length d)).pos_eq done
  have last : IsGap (source.drop d.pos) := by
    have gap := inside.isGap d.rest.length
    rwa [stop, between, ← List.length_drop, List.take_length] at gap
  refine ⟨l, ?_, items, ⟨row.ordered, fun s mem => (row.within s mem).2, c.pos,
    isInterpreterLine_take line, row.gaps last⟩, c.pos, d.pos, _, row, ?_⟩
  · have read : (do interpreterLine; Reader.many (located (grammar (depthFor source))) :
        Reader (List (Item × Span))) { rest := source } = some (l, d) :=
      bind_eq_some_iff.mpr ⟨(), c, line, many⟩
    exact congrArg (Option.map Prod.fst) read
  · have same : d.calls = new := upTo.calls.trans (List.append_nil new)
    intro site mem
    obtain ⟨call, there, -, rfl⟩ := mem_sites_iff.mp mem
    exact List.mem_map_of_mem (same ▸ calls ▸ there)

end Playground.Source
