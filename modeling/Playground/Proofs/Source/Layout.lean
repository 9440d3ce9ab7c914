import Playground.Proofs.Source.Rules

/-!
# Where statements and literals stand

The stretches of a source that linking may replace come from its statements and
from the literals of its dynamic imports. Of a statement it is at most one, and
the stretches of different statements are apart, in the order of the statements.
The literals are apart as well. But a literal may stand in the stretch of a
statement: in what is behind the source of an import, and in a decorator in front
of an export. It stands in no other stretch, and none is cut by the end of one.

All this is shown of one statement first, from where its reader begins to where
it ends, and then of a row of statements.
-/

namespace Playground.Source

open Reader

/-- One stretch lies in another one. -/
def Span.Holds (a b : Span) : Prop :=
  a.start ≤ b.start ∧ b.stop ≤ a.stop

instance (a b : Span) : Decidable (a.Holds b) :=
  inferInstanceAs (Decidable (_ ∧ _))

/-- The stretch that linking may replace in a statement: all of it, or what stands
in front of an exported declaration or value. -/
def Item.stretch? : Item → Option Span
  | .importing i => some i.span
  | .exporting span (.declaration _ start _) | .exporting span (.value start) =>
    some ⟨span.start, start⟩
  | .exporting span (.clause _) | .exporting span (.reExport _ _) => some span
  | _ => none

/-- A literal of a dynamic import may stand in the stretch of the statement. -/
def Item.MayHold : Item → Prop
  | .importing _ | .exporting _ (.declaration _ _ _) | .exporting _ (.value _) => True
  | _ => False

/-- A literal is apart from the stretch of a statement, or lies in it where it may. -/
def Item.Spares (item : Item) (site : ImportSite) : Prop :=
  ∀ t ∈ item.stretch?, site.span.Apart t ∨ t.Holds site.span ∧ item.MayHold

/-- A statement between two places, with the literals that were found in it. -/
structure Item.Placed (start stop : Nat) (sites : List ImportSite) (item : Item) : Prop where
  within : ∀ t ∈ item.stretch?, t.Within start stop
  spares : ∀ s ∈ sites, item.Spares s

theorem Item.Placed.of_none {start stop : Nat} {sites : List ImportSite} {item : Item}
    (h : item.stretch? = none) : item.Placed start stop sites where
  within t mem := by
    rw [h] at mem
    cases mem
  spares s _ t mem := by
    rw [h] at mem
    cases mem

theorem Item.Placed.mono {start stop start' stop' : Nat} {sites : List ImportSite} {item : Item}
    (h : item.Placed start stop sites) (after : start' ≤ start) (before : stop ≤ stop') :
    item.Placed start' stop' sites :=
  ⟨fun t mem => (h.within t mem).mono after before, h.spares⟩

variable {g : Grammar} [g.Sound] {c d : Cursor}

/-! ## Imports -/

omit [g.Sound] in
theorem span_of_importStatement {i : Import} (h : importStatement g c = some (some i, d)) :
    i.span = ⟨c.skipTrivia.pos, d.pos⟩ := by
  obtain ⟨start, _, begun, h⟩ := bind_eq_some_iff.mp h
  obtain ⟨rfl, rfl⟩ := begin_eq_some_iff.mp begun
  obtain ⟨_, _, -, h⟩ := bind_eq_some_iff.mp h
  obtain ⟨found, _, -, h⟩ := bind_eq_some_iff.mp h
  have final {e : Cursor} (h : (do
      semicolon .plain
      let stop := (← get).pos
      return found.map fun i => { i with span := ⟨c.skipTrivia.pos, stop⟩ } :
        Reader (Option Import)) e = some (some i, d)) : i.span = ⟨c.skipTrivia.pos, d.pos⟩ := by
    obtain ⟨_, _, -, h⟩ := bind_eq_some_iff.mp h
    obtain ⟨_, _, got, h⟩ := bind_eq_some_iff.mp h
    cases got
    obtain ⟨made, rfl⟩ := pure_eq_some_iff.mp h
    obtain ⟨_, -, rfl⟩ := Option.map_eq_some_iff.mp made
    rfl
  obtain ⟨_, _, -, h⟩ := bind_eq_some_iff.mp h
  split at h
  · exact final h
  · obtain ⟨_, _, -, h⟩ := bind_eq_some_iff.mp h
    exact final h

theorem placed_of_importStatement {i : Import}
    (h : importStatement g c = some (some i, d)) :
    ∃ new, c.Leads new d ∧
      (Item.importing i).Placed c.pos d.pos (new.map ImportCall.literal) := by
  have span := span_of_importStatement h
  obtain ⟨start, e, begun, h⟩ := bind_eq_some_iff.mp h
  obtain ⟨-, rfl⟩ := begin_eq_some_iff.mp begun
  obtain ⟨_, e, word, rest⟩ := bind_eq_some_iff.mp h
  have proper := pos_lt_of_keyword word
  obtain ⟨more, later⟩ := leads_of rest
  have leads := (leads_of_quiet word).trans later
  rw [List.append_nil] at leads
  refine ⟨more ++ [], (Cursor.Leads.skipTrivia c).trans leads, ?_, ?_⟩
  · rintro _ ⟨⟩
    rw [span]
    exact ⟨(Cursor.Leads.skipTrivia c).pos_le, Nat.lt_of_lt_of_le proper later.pos_le,
      Nat.le_refl _⟩
  · rintro s mem _ ⟨⟩
    rw [List.append_nil] at mem
    have within := leads.found.within s mem
    rw [span]
    exact .inr ⟨⟨within.after, within.before⟩, trivial⟩

/-! ## Exports -/

/-- An export statement that was read from behind its word on, with the literals that
were found in it. -/
def Export.Placed (start stop : Nat) (sites : List ImportSite) : Export → Prop
  | .declaration _ behind _ | .value behind =>
    start ≤ behind ∧ behind ≤ stop ∧ ∀ s ∈ sites, behind ≤ s.span.start
  | .clause _ | .reExport _ _ => sites = []
  | .other => True

theorem quiet_of_exportClause {e : Export} (h : exportClause c = some (e, d)) :
    ∃ new, c.Leads new d ∧ e.Placed c.pos d.pos (new.map ImportCall.literal) := by
  refine ⟨[], leads_of_quiet h, ?_⟩
  obtain ⟨pairs, _, -, h⟩ := bind_eq_some_iff.mp h
  obtain ⟨_, _, -, h⟩ := bind_eq_some_iff.mp h
  split at h
  · obtain ⟨_, _, -, h⟩ := bind_eq_some_iff.mp h
    obtain ⟨rfl, -⟩ := pure_eq_some_iff.mp h
    rfl
  · obtain ⟨source, _, -, h⟩ := bind_eq_some_iff.mp h
    obtain ⟨_, _, -, h⟩ := bind_eq_some_iff.mp h
    obtain ⟨rfl, -⟩ := pure_eq_some_iff.mp h
    cases source <;> rfl

/-- What is read from the beginning of a lexeme on stands behind that place. -/
theorem behind_of_begin {α : Type} {k : Nat → Reader α} {a : α} [∀ n, Advances true (k n)]
    (h : (begin >>= k) c = some (a, d)) : ∃ n new e, k n e = some (a, d) ∧ c.Leads new d ∧
      c.pos ≤ n ∧ n ≤ d.pos ∧ ∀ s ∈ new.map ImportCall.literal, n ≤ s.span.start := by
  obtain ⟨n, e, begun, h⟩ := bind_eq_some_iff.mp h
  obtain ⟨new, leads⟩ := leads_of h
  obtain ⟨rfl, rfl⟩ := begin_eq_some_iff.mp begun
  have first := Cursor.Leads.skipTrivia c
  refine ⟨_, new ++ [], _, h, first.trans leads, first.pos_le, leads.pos_le, ?_⟩
  intro s mem
  rw [List.append_nil] at mem
  exact (leads.found.within s mem).after

/-- Where nothing is found, the place behind is as good as the one in front. -/
theorem Export.Placed.after {start middle stop : Nat} {sites : List ImportSite} {e : Export}
    (h : e.Placed middle stop sites) (le : start ≤ middle) : e.Placed start stop sites := by
  cases e with
  | declaration | value => exact ⟨Nat.le_trans le h.1, h.2⟩
  | clause | reExport => exact h
  | other => trivial

theorem placed_of_quiet {α : Type} {p : Reader α} {k : α → Reader Export} {e : Export}
    [Advances false p]
    (later : ∀ a {c}, k a c = some (e, d) →
      ∃ new, c.Leads new d ∧ e.Placed c.pos d.pos (new.map ImportCall.literal))
    (h : (p >>= k) c = some (e, d)) :
    ∃ new, c.Leads new d ∧ e.Placed c.pos d.pos (new.map ImportCall.literal) := by
  obtain ⟨a, f, read, h⟩ := bind_eq_some_iff.mp h
  obtain ⟨new, leads, placed⟩ := later a h
  have first := leads_of_quiet read
  exact ⟨new ++ [], first.trans leads, by simpa using placed.after first.pos_le⟩

theorem placed_of_pure {e e' : Export} (quiet : e.Placed c.pos c.pos [])
    (h : (pure e : Reader Export) c = some (e', d)) :
    ∃ new, c.Leads new d ∧ e'.Placed c.pos d.pos (new.map ImportCall.literal) := by
  obtain ⟨rfl, rfl⟩ := pure_eq_some_iff.mp h
  exact ⟨[], .refl c, quiet⟩

theorem placed_of_default {e : Export} (h : (do
      let start ← begin
      let declared ← optional do
        guard ((← declarationAhead) || (← ahead "@"))
        g.declaration
      match declared with
      | some d => return .declaration true start d
      | none =>
        let _ ← g.valueAt { ending := .value }
        semicolon .value
        return .value start : Reader Export) c = some (e, d)) :
    ∃ new, c.Leads new d ∧ e.Placed c.pos d.pos (new.map ImportCall.literal) := by
  have declared := advances_defaultRest g
  obtain ⟨start, new, f, h, leads, behind⟩ := behind_of_begin h
  refine ⟨new, leads, ?_⟩
  obtain ⟨found, _, -, h⟩ := bind_eq_some_iff.mp h
  split at h
  · obtain ⟨rfl, -⟩ := pure_eq_some_iff.mp h
    exact behind
  · obtain ⟨_, _, -, h⟩ := bind_eq_some_iff.mp h
    obtain ⟨_, _, -, h⟩ := bind_eq_some_iff.mp h
    obtain ⟨rfl, -⟩ := pure_eq_some_iff.mp h
    exact behind

theorem placed_of_exportRest {e : Export} (h : exportRest g c = some (e, d)) :
    ∃ new, c.Leads new d ∧ e.Placed c.pos d.pos (new.map ImportCall.literal) := by
  refine placed_of_quiet (fun next c h => ?_) h
  split at h
  · refine placed_of_quiet (fun _ _ h => ?_) h
    refine placed_of_quiet (fun n _ h => ?_) h
    refine placed_of_quiet (fun _ _ h => placed_of_quiet (fun _ _ h => ?_) h) h
    exact placed_of_pure (by exact rfl) h
  · exact quiet_of_exportClause h
  · obtain ⟨new, leads⟩ := leads_of h
    refine ⟨new, leads, ?_⟩
    obtain ⟨_, _, -, h⟩ := bind_eq_some_iff.mp h
    obtain ⟨_, _, -, h⟩ := bind_eq_some_iff.mp h
    obtain ⟨_, _, -, h⟩ := bind_eq_some_iff.mp h
    obtain ⟨rfl, -⟩ := pure_eq_some_iff.mp h
    trivial
  · refine placed_of_quiet (fun _ _ h => ?_) h
    split at h
    · exact placed_of_quiet (fun _ _ h => placed_of_default h) h
    · refine placed_of_quiet (fun _ _ h => ?_) h
      split at h
      · exact placed_of_quiet (fun _ _ h => quiet_of_exportClause h) h
      · refine placed_of_quiet (fun _ _ h => ?_) h
        split at h
        · refine placed_of_quiet (fun _ _ h => placed_of_quiet (fun _ _ h => ?_) h) h
          refine placed_of_quiet (fun _ _ h => placed_of_quiet (fun _ _ h => ?_) h) h
          exact placed_of_pure (by exact trivial) h
        · obtain ⟨start, new, f, h, leads, behind⟩ := behind_of_begin h
          refine ⟨new, leads, ?_⟩
          obtain ⟨_, _, -, h⟩ := bind_eq_some_iff.mp h
          obtain ⟨rfl, -⟩ := pure_eq_some_iff.mp h
          exact behind

/-- Decorators, the word and what comes behind it, as one statement. -/
theorem placed_of_exportStatement {e : Export} (h : exportStatement g c = some (e, d)) :
    ∃ new, c.Leads new d ∧
      (Item.exporting ⟨c.pos, d.pos⟩ e).Placed c.pos d.pos (new.map ImportCall.literal) := by
  obtain ⟨decorated, c₁, first, h⟩ := bind_eq_some_iff.mp h
  obtain ⟨_, c₂, word, h⟩ := bind_eq_some_iff.mp h
  obtain ⟨found, c₃, rest, h⟩ := bind_eq_some_iff.mp h
  obtain ⟨_, _, fits, h⟩ := bind_eq_some_iff.mp h
  obtain ⟨fits, rfl⟩ := guard_eq_some_iff.mp fits
  obtain ⟨rfl, rfl⟩ := pure_eq_some_iff.mp h
  obtain ⟨sooner, leads⟩ := leads_of first
  obtain ⟨later, leads', placed⟩ := placed_of_exportRest rest
  have behind := (leads_of_quiet word).trans leads'
  rw [List.append_nil] at behind
  have proper := Nat.lt_of_le_of_lt leads.pos_le (pos_lt_of_keyword word)
  have whole := leads.trans behind
  have all : (⟨c.pos, c₃.pos⟩ : Span).Within c.pos c₃.pos :=
    ⟨Nat.le_refl _, Nat.lt_of_lt_of_le proper leads'.pos_le, Nat.le_refl _⟩
  refine ⟨later ++ sooner, whole, ⟨fun t there => ?_, fun s mem t there => ?_⟩⟩
  · cases found with
    | declaration | value =>
        cases there
        obtain ⟨after, before, -⟩ := placed
        exact ⟨Nat.le_refl _, Nat.lt_of_lt_of_le proper after, before⟩
    | clause | reExport =>
        cases there
        exact all
    | other => cases there
  · cases found with
    | declaration | value =>
        cases there
        obtain ⟨after, -, behind⟩ := placed
        rw [List.map_append] at mem
        rcases List.mem_append.mp mem with mem | mem
        · exact .inl (.inr (behind s mem))
        -- The literal stands in a decorator, so it is in front of the word.
        · have within := leads.found.within s mem
          have before := Nat.le_trans within.before (Nat.le_of_lt (pos_lt_of_keyword word))
          exact .inr ⟨⟨within.after, Nat.le_trans before after⟩, trivial⟩
    -- There are no decorators, and nothing is found behind the word.
    | clause | reExport =>
        obtain rfl : later = [] := List.map_eq_nil_iff.mp placed
        rcases optional_eq_some first with ⟨_, rfl, -⟩ | ⟨-, rfl⟩
        · cases fits
        · rw [leads.of_calls_eq rfl] at mem
          cases mem
    | other => cases there

/-! ## Statements -/

omit [g.Sound] in
theorem exportStatement_of_exportOrValue {e : Export}
    (h : exportOrValue g c = some (some e, d)) : exportStatement g c = some (e, d) := by
  obtain ⟨_, _, tested, h⟩ := bind_eq_some_iff.mp h
  cases tested
  split at h
  · obtain ⟨_, _, -, h⟩ := bind_eq_some_iff.mp h
    obtain ⟨made, -⟩ := pure_eq_some_iff.mp h
    cases made
  · obtain ⟨e, _, read, h⟩ := bind_eq_some_iff.mp h
    obtain ⟨made, rfl⟩ := pure_eq_some_iff.mp h
    cases made
    exact read

/-- What a statement was read as, from where it begins to where it ends. -/
inductive Item.Read (g : Grammar) (c d : Cursor) : Item → Prop where
  | importing {i : Import} (read : importStatement g c = some (some i, d)) :
      Item.Read g c d (.importing i)
  | exporting {e : Export} (read : exportStatement g c = some (e, d)) :
      Item.Read g c d (.exporting ⟨c.pos, d.pos⟩ e)
  | other {new : List ImportCall} (leads : c.Leads new d) : Item.Read g c d .other

/-- Blanks and comments are passed over, and then a statement is read. -/
theorem read_of_item {found : Item} (h : item g c = some (found, d)) :
    found.Read g (c.skipMarkup c.rest.length) d := by
  obtain ⟨_, e, begun, h⟩ := bind_eq_some_iff.mp h
  obtain ⟨rfl, rfl⟩ := beginOperand_eq_some_iff.mp begun
  have other {p : Reader Unit} [Advances true p] {f : Cursor}
      (h : (do p; return .other : Reader Item) f = some (found, d)) :
      ∃ new, f.Leads new d ∧ found = .other := by
    obtain ⟨new, leads⟩ := leads_of h
    obtain ⟨_, _, -, h⟩ := bind_eq_some_iff.mp h
    exact ⟨new, leads, (pure_eq_some_iff.mp h).1.symm⟩
  have spanned {e : Export} {f : Cursor}
      (read : exportStatement g (c.skipMarkup c.rest.length) = some (e, f)) (h : (do
        return .exporting ⟨(c.skipMarkup c.rest.length).pos, (← get).pos⟩ e : Reader Item) f =
          some (found, d)) : found.Read g (c.skipMarkup c.rest.length) d := by
    obtain ⟨_, _, got, h⟩ := bind_eq_some_iff.mp h
    cases got
    obtain ⟨rfl, rfl⟩ := pure_eq_some_iff.mp h
    exact .exporting read
  obtain ⟨_, _, tested, h⟩ := bind_eq_some_iff.mp h
  cases tested
  split at h
  · obtain ⟨i, f, read, h⟩ := bind_eq_some_iff.mp h
    cases i with
    | none =>
        obtain ⟨new, leads⟩ := leads_of read
        obtain ⟨rfl, rfl⟩ := pure_eq_some_iff.mp h
        exact .other leads
    | some i =>
        obtain ⟨rfl, rfl⟩ := pure_eq_some_iff.mp h
        exact .importing read
  · obtain ⟨_, _, tested, h⟩ := bind_eq_some_iff.mp h
    cases tested
    split at h
    · obtain ⟨e, f, read, h⟩ := bind_eq_some_iff.mp h
      cases e with
      | none =>
          obtain ⟨new, leads⟩ := leads_of read
          obtain ⟨rfl, rfl⟩ := pure_eq_some_iff.mp h
          exact .other leads
      | some e => exact spanned (exportStatement_of_exportOrValue read) h
    · obtain ⟨_, _, tested, h⟩ := bind_eq_some_iff.mp h
      cases tested
      split at h
      · rcases orElse_eq_some h with h | ⟨-, h⟩
        · obtain ⟨e, f, read, h⟩ := bind_eq_some_iff.mp h
          exact spanned read h
        · obtain ⟨new, leads, rfl⟩ := other h
          exact .other leads
      · obtain ⟨new, leads, rfl⟩ := other h
        exact .other leads

theorem Item.Read.placed {found : Item} (read : found.Read g c d) :
    ∃ new, c.Leads new d ∧ found.Placed c.pos d.pos (new.map ImportCall.literal) := by
  cases read with
  | importing read => exact placed_of_importStatement read
  | exporting read => exact placed_of_exportStatement read
  | other leads => exact ⟨_, leads, .of_none rfl⟩

theorem placed_of_item {found : Item} (h : item g c = some (found, d)) :
    ∃ new, c.Leads new d ∧ found.Placed c.pos d.pos (new.map ImportCall.literal) := by
  have first := Cursor.Leads.skipMarkup c.rest.length c
  obtain ⟨new, leads, placed⟩ := (read_of_item h).placed
  exact ⟨new ++ [], first.trans leads, by
    simpa using placed.mono first.pos_le (Nat.le_refl _)⟩

/-! ## Whole sources -/

/-- Statements between two places, with the literals that were found there. -/
structure Laid (start stop : Nat) (items : List Item) (sites : List ImportSite) : Prop where
  within : ∀ item ∈ items, ∀ t ∈ item.stretch?, t.Within start stop
  ordered : (items.filterMap Item.stretch?).Pairwise fun a b => a.stop ≤ b.start
  spares : ∀ item ∈ items, ∀ s ∈ sites, item.Spares s
  found : Found start stop sites

theorem Laid.nil {place : Nat} : Laid place place [] [] :=
  ⟨List.forall_mem_nil _, List.Pairwise.nil, List.forall_mem_nil _, .nil⟩

theorem Laid.mono {start stop start' stop' : Nat} {items : List Item} {sites : List ImportSite}
    (h : Laid start stop items sites) (after : start' ≤ start) (before : stop ≤ stop') :
    Laid start' stop' items sites where
  within item mem t there := (h.within item mem t there).mono after before
  ordered := h.ordered
  spares := h.spares
  found := ⟨fun s mem => (h.found.within s mem).mono after before, h.found.apart⟩

theorem Laid.cons {start middle stop : Nat} {item : Item} {items : List Item}
    {sooner later : List ImportSite} (first : item.Placed start middle sooner)
    (found : Found start middle sooner) (rest : Laid middle stop items later)
    (le : start ≤ middle) (le' : middle ≤ stop) :
    Laid start stop (item :: items) (later ++ sooner) where
  within := by
    refine List.forall_mem_cons.mpr ⟨(first.mono (Nat.le_refl _) le').within, ?_⟩
    exact fun item mem t there => (rest.within item mem t there).mono le (Nat.le_refl _)
  ordered := by
    rw [List.filterMap_cons]
    split
    · exact rest.ordered
    · next t there =>
        refine List.pairwise_cons.mpr ⟨fun t' mem => ?_, rest.ordered⟩
        obtain ⟨item', mem, there'⟩ := List.mem_filterMap.mp mem
        exact Nat.le_trans (first.within t there).before (rest.within item' mem t' there').after
  -- What was found sooner or later stands on one side of the statement.
  spares := by
    refine List.forall_mem_cons.mpr ⟨fun s mem t there => ?_, fun item' mem' s mem t there => ?_⟩
    · rcases List.mem_append.mp mem with mem | mem
      · exact .inl (.inr (Nat.le_trans (first.within t there).before
          (rest.found.within s mem).after))
      · exact first.spares s mem t there
    · rcases List.mem_append.mp mem with mem | mem
      · exact rest.spares item' mem' s mem t there
      · exact .inl (.inl (Nat.le_trans (found.within s mem).before
          (rest.within item' mem' t there).after))
  found := rest.found.append found le' le

theorem laid_of_chain {items : List Item} (h : Chain (item g) c items d) :
    ∃ new, c.Leads new d ∧ Laid c.pos d.pos items (new.map ImportCall.literal) := by
  induction h with
  | nil c => exact ⟨[], .refl c, .nil⟩
  | cons first _ ih =>
      obtain ⟨sooner, leads, placed⟩ := placed_of_item first
      obtain ⟨later, leads', laid⟩ := ih
      refine ⟨later ++ sooner, leads.trans leads', ?_⟩
      rw [List.map_append]
      exact laid.cons placed leads.found leads.pos_le leads'.pos_le

theorem insertSite_perm (site : ImportSite) (sites : List ImportSite) :
    (insertSite site sites).Perm (site :: sites) := by
  induction sites with
  | nil => exact .refl _
  | cons s rest ih =>
      unfold insertSite
      split
      · exact .refl _
      · exact (ih.cons s).trans (.swap site s rest)

theorem foldr_insertSite_perm (sites : List ImportSite) :
    (sites.foldr insertSite []).Perm sites := by
  induction sites with
  | nil => exact .refl _
  | cons s rest ih => exact (insertSite_perm s _).trans (ih.cons s)

theorem Laid.sublist {start stop : Nat} {items : List Item} {sites sites' : List ImportSite}
    (h : Laid start stop items sites) (sub : sites'.Sublist sites) :
    Laid start stop items sites' where
  within := h.within
  ordered := h.ordered
  spares item mem s hs := h.spares item mem s (sub.subset hs)
  found := ⟨fun s mem => h.found.within s (sub.subset mem), h.found.apart.sublist sub⟩

theorem Laid.perm {start stop : Nat} {items : List Item} {sites sites' : List ImportSite}
    (h : Laid start stop items sites) (same : sites'.Perm sites) :
    Laid start stop items sites' where
  within := h.within
  ordered := h.ordered
  spares item mem s hs := h.spares item mem s (same.mem_iff.mp hs)
  found := ⟨fun s mem => h.found.within s (same.mem_iff.mp mem),
    (same.pairwise_iff fun h => h.symm).mpr h.found.apart⟩

instance advances_interpreterLine : Advances false interpreterLine where
  goes {c d u} h := by
    have h : (match c.rest with
      | '#' :: '!' :: rest => do let _ ← take (2 + (rest.takeWhile (· != '\n')).length)
      | _ => pure () : Reader Unit) c = some (u, d) := h
    generalize there : c.rest = rest at h
    split at h
    · next rest =>
        refine goes_of_take ?_ h
        have := takeWhile_length_le (· != '\n') rest
        rw [there, List.length_cons, List.length_cons]
        omega
    · exact Advances.goes h

/-- The depth to which the rules of the grammar call each other in a source. -/
def depthFor (source : List Char) : Nat :=
  4 * source.length + 16

/-- In a whole source there is an interpreter's line perhaps, then its statements, and then blanks
and comments up to the end. -/
theorem parts_of_outline {source : List Char} {o : Outline} (h : outline? source = some o) :
    ∃ c d, interpreterLine { rest := source } = some ((), c) ∧
      many (item (grammar (depthFor source))) c = some (o.items, d) ∧
      (d.skipMarkup d.rest.length).rest = [] ∧ o.calls = d.calls := by
  unfold outline? at h
  simp only [] at h
  split at h
  · next items f read =>
      cases h
      obtain ⟨_, c, line, read⟩ := bind_eq_some_iff.mp read
      obtain ⟨found, d, many, read⟩ := bind_eq_some_iff.mp read
      obtain ⟨_, e, skipped, read⟩ := bind_eq_some_iff.mp read
      obtain ⟨-, rfl⟩ := beginOperand_eq_some_iff.mp skipped
      obtain ⟨_, _, got, read⟩ := bind_eq_some_iff.mp read
      cases got
      obtain ⟨_, _, fits, read⟩ := bind_eq_some_iff.mp read
      obtain ⟨done, rfl⟩ := guard_eq_some_iff.mp fits
      obtain ⟨rfl, rfl⟩ := pure_eq_some_iff.mp read
      exact ⟨c, d, line, many, List.isEmpty_iff.mp done,
        (Cursor.Leads.skipMarkup d.rest.length d).calls⟩
  · cases h

/-- Where nothing is left, the cursor stands at the end of the source. -/
theorem Cursor.Leads.pos_eq {source : List Char} {new : List ImportCall}
    (leads : Cursor.Leads { rest := source } new d) (done : d.rest = []) :
    d.pos = source.length := by
  obtain ⟨front, rest, pos⟩ := leads.rest
  rw [done, List.append_nil] at rest
  rw [pos, ← rest]
  exact Nat.zero_add _

/-- A whole source is read from its beginning to its end, and all dynamic imports in it are kept. -/
theorem leads_of_outline {source : List Char} {o : Outline} (h : outline? source = some o) :
    ∃ d, Cursor.Leads { rest := source } o.calls d ∧
      Laid 0 source.length o.items (o.calls.map ImportCall.literal) := by
  obtain ⟨c, d, line, many, done, calls⟩ := parts_of_outline h
  have last := Cursor.Leads.skipMarkup d.rest.length d
  obtain ⟨new, leads, laid⟩ := laid_of_chain (chain_of_many many)
  have upTo := (leads_of_quiet line).trans leads
  rw [List.append_nil] at upTo
  have stop := (upTo.trans last).pos_eq done
  have new_eq : d.calls = new := upTo.calls.trans (List.append_nil new)
  rw [calls, new_eq]
  exact ⟨d, upTo, laid.mono (Nat.zero_le _) (stop ▸ last.pos_le)⟩

/-! ## The literals by which dynamic imports are known -/

theorem ImportCall.site?_eq_some_iff {call : ImportCall} {site : ImportSite} :
    call.site? = some site ↔ call.commented = false ∧ call.literal = site := by
  unfold site?
  cases call.commented <;> simp

theorem mem_sites_iff {o : Outline} {site : ImportSite} :
    site ∈ o.sites ↔ ∃ call ∈ o.calls, call.commented = false ∧ call.literal = site := by
  rw [Outline.sites, (foldr_insertSite_perm _).mem_iff, List.mem_filterMap]
  simp only [ImportCall.site?_eq_some_iff]

theorem filterMap_site?_sublist (calls : List ImportCall) :
    (calls.filterMap ImportCall.site?).Sublist (calls.map ImportCall.literal) := by
  induction calls with
  | nil => exact .slnil
  | cons call rest ih =>
      rw [List.filterMap_cons, List.map_cons]
      cases known : call.site? with
      | none => exact ih.cons _
      | some site =>
          obtain ⟨-, rfl⟩ := ImportCall.site?_eq_some_iff.mp known
          exact ih.cons_cons _

/-- The statements and the literals of a whole source. -/
theorem laid_of_outline {source : List Char} {o : Outline} (h : outline? source = some o) :
    Laid 0 source.length o.items o.sites := by
  obtain ⟨_, -, laid⟩ := leads_of_outline h
  exact (laid.sublist (filterMap_site?_sublist o.calls)).perm (foldr_insertSite_perm _)

/-- A dynamic import stands behind a parenthesis in a source. -/
def ImportCall.Stands (source : List Char) (call : ImportCall) : Prop :=
  ∃ start, start < call.literal.span.start ∧ call.Opens start (source.drop start)

theorem stands_of_outline {source : List Char} {o : Outline} (h : outline? source = some o) :
    ∀ call ∈ o.calls, call.Stands source := by
  obtain ⟨_, leads, -⟩ := leads_of_outline h
  intro call mem
  obtain ⟨start, -, before, opens⟩ := leads.opens call mem
  exact ⟨start, before, opens⟩

/-- The literals of a whole source are string literals there. -/
theorem heads_of_outline {source : List Char} {o : Outline} (h : outline? source = some o) :
    ∀ site ∈ o.sites, site.Heads (source.drop site.span.start) := by
  intro site mem
  obtain ⟨call, known, -, rfl⟩ := mem_sites_iff.mp mem
  obtain ⟨start, before, opens⟩ := stands_of_outline h call known
  have heads := opens.heads
  rwa [List.drop_drop, Nat.add_sub_cancel' (Nat.le_of_lt before)] at heads

end Playground.Source
