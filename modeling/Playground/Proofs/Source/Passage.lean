import Mathlib.Data.Option.Basic
import Playground.Proofs.Source.Lexemes
import Playground.Source.Names

/-!
# Reading goes on

A reader that succeeds has passed over a stretch of the source, and of the dynamic
imports read before it has lost none. Those that it has added stand in that stretch,
each behind its parenthesis, and their literals are apart from each other. This
composes: what two readers pass over one after the other is one stretch again, and
their literals are apart because the stretches are. So it is a class of readers, and
for a reader that is put together from others the instance is put together from
theirs.

Only the readers that take characters by number have to be opened. For each of
them there is a lemma that says exactly when it succeeds and where it ends.
-/

namespace Playground.Source

/-! ## Stretches -/

/-- Two stretches have no character in common. -/
def Span.Apart (a b : Span) : Prop :=
  a.stop ≤ b.start ∨ b.stop ≤ a.start

/-- There is something in a stretch, and it lies between two places. -/
structure Span.Within (s : Span) (start stop : Nat) : Prop where
  after : start ≤ s.start
  proper : s.start < s.stop
  before : s.stop ≤ stop

theorem Span.Apart.symm {a b : Span} (h : a.Apart b) : b.Apart a :=
  Or.symm h

theorem Span.Within.mono {s : Span} {start stop start' stop' : Nat} (h : s.Within start stop)
    (after : start' ≤ start) (before : stop ≤ stop') : s.Within start' stop' :=
  ⟨Nat.le_trans after h.after, h.proper, Nat.le_trans h.before before⟩

/-- Literals between two places, apart from each other. -/
structure Found (start stop : Nat) (sites : List ImportSite) : Prop where
  within : ∀ s ∈ sites, s.span.Within start stop
  apart : sites.Pairwise fun a b => a.span.Apart b.span

theorem Found.nil {start stop : Nat} : Found start stop [] :=
  ⟨List.forall_mem_nil _, List.Pairwise.nil⟩

theorem Found.append {start middle stop : Nat} {later sooner : List ImportSite}
    (l : Found middle stop later) (s : Found start middle sooner) (hl : middle ≤ stop)
    (hs : start ≤ middle) : Found start stop (later ++ sooner) where
  within site mem := by
    rcases List.mem_append.mp mem with mem | mem
    · exact (l.within site mem).mono hs (Nat.le_refl _)
    · exact (s.within site mem).mono (Nat.le_refl _) hl
  apart := by
    refine List.pairwise_append.mpr ⟨l.apart, s.apart, fun a ha b hb => .inr ?_⟩
    exact Nat.le_trans (s.within b hb).before (l.within a ha).after

/-- A text begins with the string literal of a site. -/
def ImportSite.Heads (site : ImportSite) (t : List Char) : Prop :=
  ∃ n, string? t = some n ∧ site.span.stop = site.span.start + n ∧
    site.source = Text.ofChars (((t.take n).drop 1).take (n - 2))

/-- A text begins with the parenthesis of a dynamic import, and its literal stands behind it. In front
of the literal there is nothing but blanks and commas, unless a comment is there. -/
def ImportCall.Opens (call : ImportCall) (start : Nat) (t : List Char) : Prop :=
  ∃ before behind, t = '(' :: (before ++ behind) ∧
    call.literal.span.start = start + 1 + before.length ∧ call.literal.Heads behind ∧
    (call.commented = false ↔ ∀ c ∈ before, isSparse c = true)

/-- Reading on from one cursor leads to another one, with new dynamic imports. -/
structure Cursor.Leads (c : Cursor) (new : List ImportCall) (d : Cursor) : Prop where
  rest : ∃ front, c.rest = front ++ d.rest ∧ d.pos = c.pos + front.length
  calls : d.calls = new ++ c.calls
  found : Found c.pos d.pos (new.map ImportCall.literal)
  opens : ∀ call ∈ new, ∃ start, c.pos ≤ start ∧ start < call.literal.span.start ∧
    call.Opens start (c.rest.drop (start - c.pos))

theorem ImportCall.Opens.heads {call : ImportCall} {start : Nat} {t : List Char}
    (h : call.Opens start t) : call.literal.Heads (t.drop (call.literal.span.start - start)) := by
  obtain ⟨before, behind, rfl, place, heads, -⟩ := h
  have length : call.literal.span.start - start = before.length + 1 := by omega
  rw [length, List.drop_succ_cons, List.drop_left]
  exact heads

/-- A literal stands between two cursors. -/
structure Cursor.Quotes (c : Cursor) (site : ImportSite) (d : Cursor) : Prop where
  within : site.span.Within c.pos d.pos
  heads : site.Heads (c.rest.drop (site.span.start - c.pos))

namespace Cursor

variable {c d e : Cursor} {new more : List ImportCall} {call : ImportCall} {site : ImportSite}
  {n : Nat}

theorem Leads.refl (c : Cursor) : c.Leads [] c :=
  ⟨⟨[], rfl, rfl⟩, rfl, .nil, List.forall_mem_nil _⟩

theorem Leads.pos_le (h : c.Leads new d) : c.pos ≤ d.pos := by
  obtain ⟨front, -, pos⟩ := h.rest
  omega

/-- A place behind both cursors is the same place for both. -/
theorem Leads.drop_rest (h : c.Leads new d) (le : d.pos ≤ n) :
    c.rest.drop (n - c.pos) = d.rest.drop (n - d.pos) := by
  obtain ⟨front, rest, pos⟩ := h.rest
  have place : n - c.pos = front.length + (n - d.pos) := by omega
  rw [rest, place, ← List.drop_drop, List.drop_left]

theorem Leads.trans (h : c.Leads new d) (h' : d.Leads more e) : c.Leads (more ++ new) e where
  rest := by
    obtain ⟨front, rest, pos⟩ := h.rest
    obtain ⟨front', rest', pos'⟩ := h'.rest
    refine ⟨front ++ front', ?_, ?_⟩
    · rw [rest, rest', List.append_assoc]
    · rw [pos', pos, List.length_append, Nat.add_assoc]
  calls := by rw [h'.calls, h.calls, List.append_assoc]
  found := by
    rw [List.map_append]
    exact h'.found.append h.found h'.pos_le h.pos_le
  opens call mem := by
    rcases List.mem_append.mp mem with mem | mem
    · obtain ⟨start, after, before, opens⟩ := h'.opens call mem
      exact ⟨start, Nat.le_trans h.pos_le after, before, h.drop_rest after ▸ opens⟩
    · exact h.opens call mem

theorem Leads.within (h : c.Leads new d) (mem : call ∈ new) :
    call.literal.span.Within c.pos d.pos :=
  h.found.within call.literal (List.mem_map_of_mem mem)

theorem Quotes.before (h : c.Quotes site d) (le : d.pos ≤ e.pos) : c.Quotes site e :=
  ⟨h.within.mono (Nat.le_refl _) le, h.heads⟩

theorem Quotes.after (leads : c.Leads new d) (h : d.Quotes site e) : c.Quotes site e :=
  ⟨h.within.mono leads.pos_le (Nat.le_refl _), leads.drop_rest h.within.after ▸ h.heads⟩

theorem Leads.advance (c : Cursor) (h : n ≤ c.rest.length) : c.Leads [] (c.advance n) where
  rest := ⟨c.rest.take n, (List.take_append_drop n c.rest).symm,
    by rw [List.length_take, Nat.min_eq_left h]; rfl⟩
  calls := rfl
  found := .nil
  opens := List.forall_mem_nil _

theorem Leads.skipTrivia (c : Cursor) : c.Leads [] c.skipTrivia :=
  .advance c (triviaLength_le c.rest)

theorem Leads.skipMarkup (fuel : Nat) (c : Cursor) : c.Leads [] (c.skipMarkup fuel) := by
  induction fuel generalizing c with
  | zero => exact .skipTrivia c
  | succ fuel ih =>
      unfold Cursor.skipMarkup
      simp only []
      split
      · next n hn =>
          exact ((Leads.skipTrivia c).trans (.advance _ (markupComment?_le hn))).trans (ih _)
      · exact .skipTrivia c

/-- Reading on from one cursor leads to another one, and if nothing is to be found,
without a new dynamic import. -/
def Goes (finds : Bool) (c d : Cursor) : Prop :=
  ∃ new, c.Leads new d ∧ (finds = false → new = [])

theorem Leads.goes {finds : Bool} (h : c.Leads [] d) : c.Goes finds d :=
  ⟨[], h, fun _ => rfl⟩

theorem Goes.trans {finds : Bool} (h : c.Goes finds d) (h' : d.Goes finds e) :
    c.Goes finds e := by
  obtain ⟨new, leads, quiet⟩ := h
  obtain ⟨more, leads', quiet'⟩ := h'
  refine ⟨more ++ new, leads.trans leads', fun none => ?_⟩
  rw [quiet none, quiet' none, List.append_nil]

/-- From one lexeme on. -/
theorem Leads.lexeme (c : Cursor) (h : n ≤ c.skipTrivia.rest.length) :
    c.Leads [] (c.skipTrivia.advance n) :=
  (Leads.skipTrivia c).trans (.advance _ h)

theorem pos_lt_advance (c : Cursor) (h : n ≠ 0) : c.pos < (c.skipTrivia.advance n).pos := by
  have := (Leads.skipTrivia c).pos_le
  show c.pos < c.skipTrivia.pos + n
  omega

/-- Dynamic imports that were not there are new. -/
theorem Leads.of_calls_eq (h : c.Leads new d) (same : d.calls = c.calls) : new = [] :=
  List.append_left_eq_self.mp (h.calls.symm.trans same)

end Cursor

/-! ## Readers -/

namespace Reader

variable {α β : Type} {p q : Reader α} {k : α → Reader β} {c d : Cursor} {a : α} {b : β}

theorem bind_eq_some_iff : (p >>= k) c = some (b, d) ↔ ∃ a e, p c = some (a, e) ∧
    k a e = some (b, d) := by
  show (p c).bind (fun r => k r.1 r.2) = _ ↔ _
  rw [Option.bind_eq_some_iff]
  exact Prod.exists

theorem get_bind_eq {k : Cursor → Reader β} : (get >>= k) c = k c c :=
  rfl

theorem begin_bind_eq {k : Nat → Reader β} :
    (begin >>= k) c = k c.skipTrivia.pos c.skipTrivia :=
  rfl

theorem map_eq_some_iff {f : α → β} :
    (f <$> p) c = some (b, d) ↔ ∃ a, p c = some (a, d) ∧ f a = b := by
  show (p c).bind (fun r => some (f r.1, r.2)) = _ ↔ _
  rw [Option.bind_eq_some_iff]
  constructor
  · rintro ⟨⟨a, e⟩, h, h'⟩
    cases h'
    exact ⟨a, h, rfl⟩
  · rintro ⟨a, h, rfl⟩
    exact ⟨_, h, rfl⟩

theorem orElse_eq_some (h : (p <|> q) c = some (a, d)) :
    p c = some (a, d) ∨ p c = none ∧ q c = some (a, d) := by
  have h : (p c <|> q c) = some (a, d) := h
  cases hp : p c with
  | none =>
      rw [hp] at h
      exact .inr ⟨rfl, h⟩
  | some r =>
      rw [hp] at h
      exact .inl h

theorem failure_ne_some {r : α × Cursor} : (failure : Reader α) c ≠ some r :=
  fun h => by cases h

theorem pure_eq_some_iff {a' : α} : (pure a' : Reader α) c = some (a, d) ↔ a' = a ∧ c = d := by
  show some (a', c) = _ ↔ _
  rw [Option.some.injEq, Prod.mk.injEq]

theorem guard_eq_some_iff {P : Prop} [Decidable P] {u : Unit} :
    (guard P : Reader Unit) c = some (u, d) ↔ P ∧ c = d := by
  unfold guard
  split
  · next h =>
      refine pure_eq_some_iff.trans ?_
      simp [h]
  · next h => exact iff_of_false failure_ne_some fun h' => h h'.1

theorem guard_bind_eq_some_iff {P : Prop} [Decidable P] {k : Unit → Reader β} :
    (guard P >>= k) c = some (b, d) ↔ P ∧ k () c = some (b, d) := by
  rw [bind_eq_some_iff]
  constructor
  · rintro ⟨_, _, fits, later⟩
    obtain ⟨h, rfl⟩ := guard_eq_some_iff.mp fits
    exact ⟨h, later⟩
  · rintro ⟨h, later⟩
    exact ⟨(), c, guard_eq_some_iff.mpr ⟨h, rfl⟩, later⟩

theorem optional_eq_some {found : Option α} (h : optional p c = some (found, d)) :
    (∃ a, found = some a ∧ p c = some (a, d)) ∨ found = none ∧ d = c := by
  rcases orElse_eq_some h with h | ⟨-, h⟩
  · obtain ⟨a, hp, rfl⟩ := map_eq_some_iff.mp h
    exact .inl ⟨a, rfl, hp⟩
  · obtain ⟨rfl, rfl⟩ := pure_eq_some_iff.mp h
    exact .inr ⟨rfl, rfl⟩

/-! ## What the readers of lexemes read -/

section Lexemes

variable {u : Unit} {w : List Char} {site : ImportSite} {length : List Char → Option Nat}

theorem take_eq_some_iff {n : Nat} :
    take n c = some (w, d) ↔ c.rest.take n = w ∧ c.advance n = d := by
  show some (c.rest.take n, c.advance n) = _ ↔ _
  rw [Option.some.injEq, Prod.mk.injEq]

theorem pass_eq_some_iff {n : Nat} :
    (take n >>= fun _ => pure () : Reader Unit) c = some (u, d) ↔ c.advance n = d := by
  simp only [bind_eq_some_iff, take_eq_some_iff, pure_eq_some_iff]
  constructor
  · rintro ⟨_, _, ⟨-, rfl⟩, -, rfl⟩
    rfl
  · rintro rfl
    exact ⟨_, _, ⟨rfl, rfl⟩, trivial, rfl⟩

theorem begin_eq_some_iff {n : Nat} :
    begin c = some (n, d) ↔ c.skipTrivia.pos = n ∧ c.skipTrivia = d := by
  show some (c.skipTrivia.pos, c.skipTrivia) = _ ↔ _
  rw [Option.some.injEq, Prod.mk.injEq]

theorem beginOperand_eq_some_iff {n : Nat} : beginOperand c = some (n, d) ↔
    (c.skipMarkup c.rest.length).pos = n ∧ c.skipMarkup c.rest.length = d := by
  show some ((c.skipMarkup c.rest.length).pos, c.skipMarkup c.rest.length) = _ ↔ _
  rw [Option.some.injEq, Prod.mk.injEq]

theorem mark_eq_some_iff {m : String} : mark m c = some (u, d) ↔
    m.toList <+: c.skipTrivia.rest ∧ c.skipTrivia.advance m.length = d := by
  show (guard _ >>= fun _ => take m.length >>= fun _ => pure ()) c.skipTrivia = _ ↔ _
  rw [guard_bind_eq_some_iff, List.isPrefixOf_iff_prefix, pass_eq_some_iff]

theorem word_eq_some_iff : word c = some (w, d) ↔ wordLength c.skipTrivia.rest ≠ 0 ∧
    c.skipTrivia.rest.take (wordLength c.skipTrivia.rest) = w ∧
    c.skipTrivia.advance (wordLength c.skipTrivia.rest) = d := by
  show (guard _ >>= fun _ => take _) c.skipTrivia = _ ↔ _
  rw [guard_bind_eq_some_iff, take_eq_some_iff]

theorem lexeme_eq_some_iff : lexeme length c = some (u, d) ↔
    ∃ n, length c.skipTrivia.rest = some n ∧ c.skipTrivia.advance n = d := by
  unfold lexeme
  rw [begin_bind_eq, get_bind_eq]
  cases length c.skipTrivia.rest with
  | none =>
      refine iff_of_false failure_ne_some ?_
      rintro ⟨_, h, -⟩
      cases h
  | some n => simp only [pass_eq_some_iff, Option.some.injEq, exists_eq_left']

theorem string_eq_some_iff : string c = some (site, d) ↔
    ∃ n, string? c.skipTrivia.rest = some n ∧ c.skipTrivia.advance n = d ∧
      ⟨⟨c.skipTrivia.pos, c.skipTrivia.pos + n⟩,
        Text.ofChars (((c.skipTrivia.rest.take n).drop 1).take (n - 2))⟩ = site := by
  unfold string
  rw [begin_bind_eq, get_bind_eq]
  cases string? c.skipTrivia.rest with
  | none =>
      refine iff_of_false failure_ne_some ?_
      rintro ⟨_, h, -⟩
      cases h
  | some n =>
      simp only [bind_eq_some_iff, take_eq_some_iff, pure_eq_some_iff, Option.some.injEq]
      constructor
      · rintro ⟨_, _, ⟨rfl, rfl⟩, rfl, rfl⟩
        exact ⟨n, rfl, rfl, rfl⟩
      · rintro ⟨_, rfl, rfl, rfl⟩
        exact ⟨_, _, ⟨rfl, rfl⟩, rfl, rfl⟩

/-- No dynamic import is found in a mark. -/
theorem leads_of_mark {m : String} (h : mark m c = some (u, d)) : c.Leads [] d := by
  obtain ⟨there, rfl⟩ := mark_eq_some_iff.mp h
  exact .lexeme c (String.length_toList ▸ there.length_le)

/-- A word is not empty. -/
theorem pos_lt_of_word (h : word c = some (w, d)) : c.pos < d.pos := by
  obtain ⟨some, -, rfl⟩ := word_eq_some_iff.mp h
  exact c.pos_lt_advance some

theorem pos_lt_of_keyword {w : String} (h : keyword w c = some (u, d)) : c.pos < d.pos := by
  obtain ⟨_, e, read, h⟩ := bind_eq_some_iff.mp h
  obtain ⟨-, rfl⟩ := guard_eq_some_iff.mp h
  exact pos_lt_of_word read

/-- A string literal stands where it says, and no dynamic import is found in it. -/
theorem quotes_of_string (h : string c = some (site, d)) : c.Leads [] d ∧ c.Quotes site d := by
  obtain ⟨n, hn, rfl, rfl⟩ := string_eq_some_iff.mp h
  have bounds := string?_bounds hn
  have proper : c.skipTrivia.pos < c.skipTrivia.pos + n := by omega
  refine ⟨.lexeme c bounds.2, .after (.skipTrivia c) ⟨⟨Nat.le_refl _, proper, Nat.le_refl _⟩, ?_⟩⟩
  rw [Nat.sub_self]
  exact ⟨n, hn, rfl, rfl⟩

end Lexemes

/-! ## Readers that lead on -/

/-- Where a reader succeeds, it leads on. Some readers never find a dynamic import. -/
class Advances (finds : Bool) (p : Reader α) : Prop where
  goes : ∀ {c d : Cursor} {a : α}, p c = some (a, d) → c.Goes finds d

theorem leads_of [Advances true p] (h : p c = some (a, d)) : ∃ new, c.Leads new d := by
  obtain ⟨new, leads, -⟩ : c.Goes true d := Advances.goes h
  exact ⟨new, leads⟩

theorem leads_of_quiet [Advances false p] (h : p c = some (a, d)) : c.Leads [] d := by
  obtain ⟨new, leads, quiet⟩ : c.Goes false d := Advances.goes h
  exact quiet rfl ▸ leads

section Instances

variable {finds : Bool} {P : Prop} [Decidable P]

instance advances_pure : Advances finds (pure a : Reader α) where
  goes h := by
    obtain ⟨-, rfl⟩ := pure_eq_some_iff.mp h
    exact (Cursor.Leads.refl _).goes

instance advances_failure : Advances finds (failure : Reader α) where
  goes h := by cases h

instance advances_bind [Advances finds p] [∀ a, Advances finds (k a)] :
    Advances finds (p >>= k) where
  goes h := by
    obtain ⟨a, e, h, h'⟩ := bind_eq_some_iff.mp h
    exact (Advances.goes h).trans (Advances.goes h')

instance advances_orElse [Advances finds p] [Advances finds q] : Advances finds (p <|> q) where
  goes h := by
    rcases orElse_eq_some h with h | ⟨-, h⟩
    · exact Advances.goes h
    · exact Advances.goes h

instance advances_ite [Advances finds p] [Advances finds q] :
    Advances finds (if P then p else q) := by
  split <;> assumption

instance advances_guard : Advances finds (guard P : Reader Unit) where
  goes h := by
    obtain ⟨-, rfl⟩ := guard_eq_some_iff.mp h
    exact (Cursor.Leads.refl _).goes

instance advances_get : Advances finds (get : Reader Cursor) where
  goes h := by
    cases h
    exact (Cursor.Leads.refl _).goes

instance advances_optional [Advances finds p] : Advances finds (optional p) where
  goes h := by
    rcases optional_eq_some h with ⟨a, -, h⟩ | ⟨-, rfl⟩
    · exact Advances.goes h
    · exact (Cursor.Leads.refl _).goes

instance advances_skipOptional [Advances finds p] : Advances finds (skipOptional p) := by
  unfold skipOptional
  infer_instance

instance advances_test : Advances finds (test p) where
  goes h := by
    cases h
    exact (Cursor.Leads.refl _).goes

instance advances_look : Advances finds look := by
  unfold look
  infer_instance

instance advances_ahead {m : String} : Advances finds (ahead m) := by
  unfold ahead
  infer_instance

instance advances_lookWord : Advances finds lookWord := by
  unfold lookWord
  infer_instance

instance advances_aheadWord {w : String} : Advances finds (aheadWord w) := by
  unfold aheadWord
  infer_instance

instance advances_ends {ending : Ending} : Advances finds (ends ending) := by
  unfold ends
  infer_instance

instance advances_begin : Advances finds begin where
  goes h := by
    obtain ⟨-, rfl⟩ := begin_eq_some_iff.mp h
    exact (Cursor.Leads.skipTrivia _).goes

instance advances_beginOperand : Advances finds beginOperand where
  goes h := by
    obtain ⟨-, rfl⟩ := beginOperand_eq_some_iff.mp h
    exact (Cursor.Leads.skipMarkup _ _).goes

instance advances_mark {m : String} : Advances finds (mark m) where
  goes h := (leads_of_mark h).goes

instance advances_word : Advances finds word where
  goes h := by
    obtain ⟨-, -, rfl⟩ := word_eq_some_iff.mp h
    exact (Cursor.Leads.lexeme _ (wordLength_le _)).goes

instance advances_keyword {w : String} : Advances finds (keyword w) := by
  unfold keyword
  infer_instance

instance advances_afterKeyword {w : String} {p : Reader Unit} [Advances finds p] :
    Advances finds (afterKeyword w p) := by
  unfold afterKeyword
  infer_instance

instance advances_name : Advances finds name := by
  unfold name
  infer_instance

instance advances_number : Advances finds (lexeme number?) where
  goes h := by
    obtain ⟨n, hn, rfl⟩ := lexeme_eq_some_iff.mp h
    exact (Cursor.Leads.lexeme _ (number?_le hn)).goes

instance advances_regex : Advances finds (lexeme regex?) where
  goes h := by
    obtain ⟨n, hn, rfl⟩ := lexeme_eq_some_iff.mp h
    exact (Cursor.Leads.lexeme _ (regex?_le hn)).goes

instance advances_string : Advances finds string where
  goes h := (quotes_of_string h).1.goes

instance advances_semicolon {ending : Ending} : Advances finds (semicolon ending) where
  goes {c d u} h := by
    have h : (match missingSemicolon? ending (c.rest.length + 1) 0 c.rest with
      | some n => (take n >>= fun _ => pure () : Reader Unit)
      | none => mark ";") c = some (u, d) := h
    cases found : missingSemicolon? ending (c.rest.length + 1) 0 c.rest with
    | none =>
        rw [found] at h
        exact Advances.goes h
    | some n =>
        rw [found] at h
        obtain ⟨_, _, taken, h⟩ := bind_eq_some_iff.mp h
        obtain ⟨-, rfl⟩ := take_eq_some_iff.mp taken
        obtain ⟨-, rfl⟩ := pure_eq_some_iff.mp h
        have := missingSemicolon?_le found
        exact (Cursor.Leads.advance c (by omega)).goes

instance advances_sliceOf [Advances finds p] : Advances finds (sliceOf p) := by
  unfold sliceOf
  infer_instance

/-! ## Repetition -/

instance advances_iterate {step : α → Reader α} [∀ a, Advances finds (step a)] :
    Advances finds (iterate step a) where
  goes {c d b} h := by
    have all (fuel : Nat) {a : α} {c : Cursor} (h : iterateFrom step fuel a c = some (b, d)) :
        c.Goes finds d := by
      induction fuel generalizing a c with
      | zero =>
          cases h
          exact (Cursor.Leads.refl _).goes
      | succ fuel ih =>
          unfold iterateFrom at h
          split at h
          · next h' => exact (Advances.goes h').trans (ih h)
          · cases h
            exact (Cursor.Leads.refl _).goes
    exact all _ h

instance advances_many [Advances finds p] : Advances finds (many p) := by
  unfold many
  infer_instance

instance advances_commaList [Advances finds p] : Advances finds (commaList p) := by
  unfold commaList
  infer_instance

instance advances_sparseList [Advances finds p] : Advances finds (sparseList p) := by
  unfold sparseList
  infer_instance

instance advances_looseList [Advances finds p] : Advances finds (looseList p) := by
  unfold looseList
  refine @advances_bind _ _ _ _ _ inferInstance fun found => ?_
  cases found <;> infer_instance

end Instances

/-- A reader succeeds several times in a row. -/
inductive Chain (p : Reader α) : Cursor → List α → Cursor → Prop where
  | nil (c : Cursor) : Chain p c [] c
  | cons {c d e : Cursor} {a : α} {rest : List α} (first : p c = some (a, d))
      (later : Chain p d rest e) : Chain p c (a :: rest) e

theorem chain_of_many {l : List α} (h : many p c = some (l, d)) : Chain p c l d := by
  have all (fuel : Nat) {found found' : List α} {c : Cursor}
      (h : iterateFrom (fun found => do return (← p) :: found) fuel found c = some (found', d)) :
      ∃ l, found' = l.reverse ++ found ∧ Chain p c l d := by
    induction fuel generalizing found c with
    | zero =>
        cases h
        exact ⟨[], rfl, .nil _⟩
    | succ fuel ih =>
        unfold iterateFrom at h
        split at h
        · next h' =>
            obtain ⟨a, e, first, h'⟩ := bind_eq_some_iff.mp h'
            obtain ⟨rfl, rfl⟩ := pure_eq_some_iff.mp h'
            obtain ⟨l, rfl, later⟩ := ih h
            exact ⟨a :: l, by simp, .cons first later⟩
        · cases h
          exact ⟨[], rfl, .nil _⟩
  obtain ⟨_, _, read, h⟩ := bind_eq_some_iff.mp h
  obtain ⟨rfl, rfl⟩ := pure_eq_some_iff.mp h
  obtain ⟨l, rfl, chain⟩ := all _ read
  rw [List.append_nil, List.reverse_reverse]
  exact chain

theorem Chain.leads [Advances true p] {l : List α} (h : Chain p c l d) :
    ∃ new, c.Leads new d := by
  induction h with
  | nil c => exact ⟨[], .refl c⟩
  | cons first _ ih =>
      obtain ⟨new, leads⟩ := leads_of first
      obtain ⟨more, leads'⟩ := ih
      exact ⟨more ++ new, leads.trans leads'⟩

end Reader

end Playground.Source
