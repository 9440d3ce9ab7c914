import Playground.Proofs.Source.Passage
import Playground.Source.Grammar
import Playground.Source.Names

/-!
# Literals of dynamic imports

When the arguments of a dynamic import are read, the import is remembered last, after
all dynamic imports in the other arguments. Its literal is apart from theirs because
it is the whole first argument. So a grammar has to promise two things: that its rules
lead on, and that an expression which is a literal stands where the literal says and
has no dynamic import in it.
-/

namespace Playground.Source

open Reader

namespace Reader

variable {α : Type} {p q : Reader Shape} {x : Reader α} {k : α → Reader Shape}

/-- Where what is read is a literal, nothing else was found on the way. -/
class Literal (p : Reader Shape) : Prop where
  quotes : ∀ {c d : Cursor} {s : Shape} {site : ImportSite}, p c = some (s, d) →
    s.literal = some site → d.calls = c.calls ∧ c.Quotes site d

/-- What is read is never a literal. -/
class Unlit (p : Reader Shape) : Prop where
  unlit : ∀ {c d : Cursor} {s : Shape}, p c = some (s, d) → s.literal = none

instance literal_of_unlit [Unlit p] : Literal p where
  quotes h lit := by
    rw [Unlit.unlit h] at lit
    cases lit

instance unlit_failure : Unlit (failure : Reader Shape) where
  unlit h := absurd h failure_ne_some

instance unlit_bind [∀ a, Unlit (k a)] : Unlit (x >>= k) where
  unlit h := by
    obtain ⟨a, e, -, h⟩ := bind_eq_some_iff.mp h
    exact Unlit.unlit h

instance unlit_orElse [Unlit p] [Unlit q] : Unlit (p <|> q) where
  unlit h := by
    rcases orElse_eq_some h with h | ⟨-, h⟩
    · exact Unlit.unlit h
    · exact Unlit.unlit h

instance unlit_ite {P : Prop} [Decidable P] [Unlit p] [Unlit q] : Unlit (if P then p else q) := by
  split <;> assumption

instance unlit_pure {value updatable parenthesized : Bool} {target defaulted : Option Pattern} :
    Unlit (pure ⟨value, target, defaulted, updatable, parenthesized, none⟩) where
  unlit h := by
    obtain ⟨rfl, -⟩ := pure_eq_some_iff.mp h
    rfl

instance unlit_pure_ite {P : Prop} [Decidable P] {s t : Shape} [Unlit (pure s)] [Unlit (pure t)] :
    Unlit (pure (if P then s else t)) := by
  split <;> assumption

instance unlit_property : Unlit (pure Shape.property) :=
  unlit_pure

instance unlit_named {n : Text} : Unlit (pure (Shape.named n)) :=
  unlit_pure

instance literal_orElse [Literal p] [Literal q] : Literal (p <|> q) where
  quotes h lit := by
    rcases orElse_eq_some h with h | ⟨-, h⟩
    · exact Literal.quotes h lit
    · exact Literal.quotes h lit

instance literal_ite {P : Prop} [Decidable P] [Literal p] [Literal q] :
    Literal (if P then p else q) := by
  split <;> assumption

end Reader

/-! ## Grammars -/

/-- All rules of a grammar lead on, and an expression that is a literal is that and
nothing else. -/
class Grammar.Sound (g : Grammar) : Prop where
  advances : ∀ r, Advances true (g r)
  literal : ∀ place, Literal (g.expression place)

namespace Grammar

variable {g : Grammar} [g.Sound]

instance advances_expression {place : Place} : Advances true (g.expression place) :=
  Sound.advances (.expression place)

instance literal_expression {place : Place} : Literal (g.expression place) :=
  Sound.literal place

instance advances_type {ending : Ending} : Advances true (g.type ending) :=
  Sound.advances (.type ending)

instance advances_parameters : Advances true g.parameters :=
  Sound.advances .parameters

instance advances_statement : Advances true g.statement :=
  Sound.advances .statement

instance advances_declaration : Advances true g.declaration :=
  Sound.advances .declaration

instance advances_valueAt {place : Place} : Advances true (g.valueAt place) := by
  unfold valueAt
  infer_instance

instance literal_valueAt {place : Place} : Literal (g.valueAt place) where
  quotes h lit := by
    obtain ⟨_, _, read, h⟩ := bind_eq_some_iff.mp h
    obtain ⟨_, _, fits, h⟩ := bind_eq_some_iff.mp h
    obtain ⟨-, rfl⟩ := guard_eq_some_iff.mp fits
    obtain ⟨rfl, rfl⟩ := pure_eq_some_iff.mp h
    exact Literal.quotes read lit

instance advances_value : Advances true g.value :=
  advances_valueAt

instance literal_value : Literal g.value :=
  literal_valueAt

instance advances_values {place : Place} : Advances true (g.values place) := by
  unfold values
  infer_instance

instance advances_block : Advances true g.block := by
  unfold block
  infer_instance

end Grammar

/-! ## Arguments -/

namespace Reader

variable {p : Reader (Option ImportSite)} {c d : Cursor} {site : ImportSite}

/-- Where a literal is read, nothing else is found on the way. -/
class Marks (p : Reader (Option ImportSite)) : Prop where
  quotes : ∀ {c d : Cursor} {site : ImportSite}, p c = some (some site, d) →
    d.calls = c.calls ∧ c.Quotes site d

/-- What is found in a list after its first literal stands behind the literal. -/
structure Behind (c : Cursor) (site : ImportSite) (d : Cursor) : Prop where
  quotes : c.Quotes site d
  later : ∃ new, c.Leads new d ∧ ∀ call ∈ new, site.span.stop ≤ call.literal.span.start

theorem Behind.of_leads {e : Cursor} {new : List ImportCall} (leads : c.Leads [] e)
    (quotes : c.Quotes site e) (later : e.Leads new d) : Behind c site d where
  quotes := quotes.before later.pos_le
  later := ⟨new ++ [], leads.trans later, fun call mem => by
    rw [List.append_nil] at mem
    exact Nat.le_trans quotes.within.before (later.within mem).after⟩

theorem Behind.after {e : Cursor} (leads : c.Leads [] e) (h : Behind e site d) :
    Behind c site d where
  quotes := h.quotes.after leads
  later := by
    obtain ⟨new, later, behind⟩ := h.later
    exact ⟨new ++ [], leads.trans later, fun call mem => behind call (by simpa using mem)⟩

theorem leads_of_marks [Advances true p] [Marks p] (h : p c = some (some site, d)) :
    c.Leads [] d ∧ c.Quotes site d := by
  obtain ⟨new, leads⟩ := leads_of h
  obtain ⟨same, quotes⟩ := Marks.quotes h
  obtain rfl := leads.of_calls_eq same
  exact ⟨leads, quotes⟩

theorem behind_of_chain [Advances true p] [Marks p] {l : List (Option (Option ImportSite))}
    {rest : List (Option ImportSite)}
    (h : Chain (do mark ","; optional p) c l d) (first : l.filterMap id = some site :: rest) :
    Behind c site d := by
  induction h with
  | nil => cases first
  | @cons c e d found l read later ih =>
      obtain ⟨_, _, comma, read⟩ := bind_eq_some_iff.mp read
      have onward := leads_of_mark comma
      rcases optional_eq_some read with ⟨found, rfl, own⟩ | ⟨rfl, rfl⟩
      · cases first
        obtain ⟨leads, quotes⟩ := leads_of_marks own
        obtain ⟨new, later⟩ := later.leads
        exact (Behind.of_leads leads quotes later).after onward
      -- Nothing stands in front of the comma, so the first literal is still to come.
      · exact (ih first).after onward

theorem behind_of_sparseList [Advances true p] [Marks p] {l : List (Option ImportSite)}
    (h : sparseList p c = some (l, d)) {rest : List (Option ImportSite)}
    (first : l = some site :: rest) : Behind c site d := by
  obtain ⟨found, e, read, h⟩ := bind_eq_some_iff.mp h
  obtain ⟨more, _, repeated, h⟩ := bind_eq_some_iff.mp h
  obtain ⟨rfl, rfl⟩ := pure_eq_some_iff.mp h
  have chain := chain_of_many repeated
  rcases optional_eq_some read with ⟨found, rfl, own⟩ | ⟨rfl, rfl⟩
  · cases first
    obtain ⟨leads, quotes⟩ := leads_of_marks own
    obtain ⟨new, later⟩ := chain.leads
    exact .of_leads leads quotes later
  · exact behind_of_chain chain first

end Reader

variable {g : Grammar} [g.Sound]

/-- An argument of a dynamic import, and the literal that it is. -/
def argument (g : Grammar) : Reader (Option ImportSite) := do
  let spread ← optional (mark "...")
  let s ← g.value
  return if spread.isSome then none else s.literal

instance advances_argument : Advances true (argument g) := by
  unfold argument
  infer_instance

instance marks_argument : Marks (argument g) where
  quotes h := by
    obtain ⟨spread, e, opened, h⟩ := bind_eq_some_iff.mp h
    obtain ⟨s, _, read, h⟩ := bind_eq_some_iff.mp h
    obtain ⟨lit, rfl⟩ := pure_eq_some_iff.mp h
    rcases optional_eq_some opened with ⟨_, rfl, -⟩ | ⟨rfl, rfl⟩
    · cases lit
    · exact Literal.quotes read lit

/-- A dynamic import of a literal is remembered, with whether a comment stands in front of it. -/
def remember (behind : List Char) (start : Nat) : List (Option ImportSite) → Reader Unit
  | some site :: _ =>
    let before := behind.take (site.span.start - start)
    modify fun c => { c with calls := ⟨site, !before.all isSparse⟩ :: c.calls }
  | _ => pure ()

theorem importArguments_eq (g : Grammar) : importArguments g = (do
    mark "("
    let behind := (← get).rest
    let start := (← get).pos
    let found ← sparseList (argument g)
    mark ")"
    remember behind start found) :=
  rfl

/-- The literal stands behind the parenthesis. -/
theorem Reader.Behind.opens {c d e : Cursor} {site : ImportSite} {u : Unit}
    (opened : mark "(" c = some (u, d)) (h : Behind d site e) :
    ∃ start, c.pos ≤ start ∧ start < site.span.start ∧
      (ImportCall.mk site !(d.rest.take (site.span.start - d.pos)).all isSparse).Opens start
        (c.rest.drop (start - c.pos)) := by
  have first := Cursor.Leads.skipTrivia c
  obtain ⟨⟨rest, there⟩, hd⟩ := mark_eq_some_iff.mp opened
  have there : c.skipTrivia.rest = '(' :: rest := there.symm
  have tail : d.rest = rest := by
    rw [← hd]
    show c.skipTrivia.rest.drop 1 = rest
    rw [there]
    rfl
  have place : d.pos = c.skipTrivia.pos + 1 := by
    rw [← hd]
    rfl
  obtain ⟨⟨after, -, -⟩, heads⟩ := h.quotes
  rw [tail, place] at heads ⊢
  rw [place] at after
  have room : site.span.start - (c.skipTrivia.pos + 1) ≤ rest.length := by
    obtain ⟨n, hn, -, -⟩ := heads
    have := string?_bounds hn
    rw [List.length_drop] at this
    omega
  refine ⟨c.skipTrivia.pos, first.pos_le, after,
    rest.take (site.span.start - (c.skipTrivia.pos + 1)), rest.drop _, ?_, ?_, heads, ?_⟩
  · rw [List.take_append_drop, first.drop_rest (Nat.le_refl _), Nat.sub_self, List.drop_zero, there]
  · rw [List.length_take, Nat.min_eq_left room]
    show site.span.start = _
    omega
  · rw [Bool.not_eq_false', List.all_eq_true]

theorem leads_remember {b c d e : Cursor} {new : List ImportCall} {u v : Unit}
    {found : List (Option ImportSite)} (opened : mark "(" b = some (v, c)) (leads : c.Leads new d)
    (first : ∀ site rest, found = some site :: rest → Behind c site d)
    (h : remember c.rest c.pos found d = some (u, e)) : ∃ new, b.Leads new e := by
  have onward := leads_of_mark opened
  unfold remember at h
  split at h
  · next site _ =>
      cases h
      have behind := first site _ rfl
      obtain ⟨start, after, before, opens⟩ := behind.opens opened
      obtain ⟨quotes, new, leads, later⟩ := behind
      have leads := onward.trans leads
      rw [List.append_nil] at leads
      refine ⟨⟨site, _⟩ :: new, leads.rest, congrArg (_ :: ·) leads.calls, ⟨?_, ?_⟩, ?_⟩
      · have within := quotes.within.mono onward.pos_le (Nat.le_refl _)
        exact List.forall_mem_cons.mpr ⟨within, leads.found.within⟩
      · refine List.pairwise_cons.mpr ⟨List.forall_mem_map.mpr fun call mem => ?_, leads.found.apart⟩
        exact .inl (later call mem)
      · exact List.forall_mem_cons.mpr ⟨⟨start, after, before, opens⟩, leads.opens⟩
  · cases h
    exact ⟨_, onward.trans leads⟩

instance advances_importArguments : Advances true (importArguments g) where
  goes h := by
    rw [importArguments_eq] at h
    obtain ⟨_, c₁, opened, h⟩ := bind_eq_some_iff.mp h
    obtain ⟨_, _, got, h⟩ := bind_eq_some_iff.mp h
    cases got
    obtain ⟨_, _, got, h⟩ := bind_eq_some_iff.mp h
    cases got
    obtain ⟨found, c₂, read, h⟩ := bind_eq_some_iff.mp h
    obtain ⟨_, c₃, closed, h⟩ := bind_eq_some_iff.mp h
    obtain ⟨more, leads⟩ := leads_of read
    have onward := leads_of_mark closed
    obtain ⟨all, leads⟩ := leads_remember opened (leads.trans onward) (fun site rest first => by
      obtain ⟨quotes, new, leads, later⟩ := behind_of_sparseList read first
      exact ⟨quotes.before onward.pos_le, _, leads.trans onward, later⟩) h
    exact ⟨all, leads, fun h => by cases h⟩

omit [g.Sound] in
/-- A dynamic import of a literal is remembered, and whatever is read behind it, it stays so. -/
theorem remembered_of_importArguments {α : Type} {k : Unit → Reader α} [∀ u, Advances true (k u)]
    {c d : Cursor} {a : α} (h : (importArguments g >>= k) c = some (a, d)) :
    ∃ b found e, mark "(" c = some ((), b) ∧ sparseList (argument g) b = some (found, e) ∧
      ∀ site rest, found = some site :: rest → ∃ call ∈ d.calls, call.literal = site := by
  obtain ⟨_, f, read, later⟩ := bind_eq_some_iff.mp h
  rw [importArguments_eq] at read
  obtain ⟨_, b, opened, read⟩ := bind_eq_some_iff.mp read
  obtain ⟨_, _, got, read⟩ := bind_eq_some_iff.mp read
  cases got
  obtain ⟨_, _, got, read⟩ := bind_eq_some_iff.mp read
  cases got
  obtain ⟨found, e, inner, read⟩ := bind_eq_some_iff.mp read
  obtain ⟨_, _, -, remembers⟩ := bind_eq_some_iff.mp read
  refine ⟨b, found, e, opened, inner, ?_⟩
  rintro site rest rfl
  cases remembers
  obtain ⟨new, leads⟩ := leads_of later
  refine ⟨⟨site, !(b.rest.take (site.span.start - b.pos)).all isSparse⟩, ?_, rfl⟩
  rw [leads.calls]
  exact List.mem_append_right _ List.mem_cons_self

end Playground.Source
