import Mathlib.Data.List.Forall2
import Playground.Proofs.Source.Passage

/-!
# Reading what is known

What a reader does depends on the source that is left, and where in the source it
stands only goes into spans. So of a text whose beginning is known one can tell how
far a reader comes and what its result is like, or that it fails, wherever the text
stands. Both are judgements about a reader and a text, with one rule for each way in
which readers are put together. An ordered choice needs both: what is read second
is read only where the first fails.

A lexeme is told apart from what comes behind it by the first character there, so
behind a word no character must stand that could belong to it.
-/

namespace Playground.Source

/-! ## The next lexeme -/

theorem triviaFrom_add (fuel n : Nat) (s : List Char) :
    triviaFrom fuel n s = n + triviaFrom fuel 0 s := by
  induction fuel generalizing n s with
  | zero => rfl
  | succ fuel ih =>
      cases s with
      | nil => rfl
      | cons c rest =>
          simp only [triviaFrom]
          split
          · rw [ih (n + 1), ih (0 + 1)]
            omega
          · split
            · next k _ =>
                rw [ih (n + k), ih (0 + k)]
                omega
            · rfl

/-- The source from the next lexeme on. -/
def front (s : List Char) : List Char :=
  s.drop (triviaLength s)

/-- Blanks are passed over. -/
theorem front_blank {c : Char} {s : List Char} (blank : isBlank c = true) :
    front (c :: s) = front s := by
  have length : triviaLength (c :: s) = triviaLength s + 1 := by
    show triviaFrom (s.length + 1 + 1) 0 (c :: s) = triviaFrom (s.length + 1) 0 s + 1
    rw [triviaFrom, if_pos blank, triviaFrom_add]
    exact Nat.add_comm _ _
  rw [front, length, List.drop_succ_cons, front]

/-- A lexeme begins with this character, whatever comes next. -/
def isSolid (c : Char) : Bool :=
  !isBlank c && c != '/'

theorem comment?_solid {c : Char} {s : List Char} (solid : isSolid c = true) :
    comment? (c :: s) = none := by
  have slash := ((Bool.and_eq_true_iff ..).mp solid).2
  unfold comment?
  split
  · next h => cases h; cases slash
  · next h => cases h; cases slash
  · rfl

theorem front_solid {c : Char} {s : List Char} (solid : isSolid c = true) :
    front (c :: s) = c :: s := by
  obtain ⟨blank, slash⟩ := (Bool.and_eq_true_iff ..).mp solid
  have none := comment?_solid (s := s) solid
  have length : triviaLength (c :: s) = 0 := by
    simp only [triviaLength, List.length_cons, triviaFrom, none]
    rw [if_neg (by simpa using blank)]
  rw [front, length, List.drop_zero]

@[simp]
theorem front_space (s : List Char) : front (' ' :: s) = front s :=
  front_blank (by decide)

theorem front_space_solid {c : Char} {s : List Char} (solid : isSolid c = true) :
    front (' ' :: c :: s) = c :: s :=
  (front_space _).trans (front_solid solid)

@[simp]
theorem front_lineFeed (s : List Char) : front ('\n' :: s) = front s :=
  front_blank (by decide)

/-! ## Words -/

/-- A word that is written without escapes. -/
structure IsWord (w : List Char) : Prop where
  parts : ∀ c ∈ w, isWordPart c = true
  begins : ∃ c ∈ w.head?, isDigit c = false

instance (w : List Char) : Decidable (IsWord w) :=
  decidable_of_iff ((w.all isWordPart && w.head?.any fun c => !isDigit c) = true) (by
    rw [Bool.and_eq_true_iff, List.all_eq_true, Option.any_eq_true]
    constructor
    · rintro ⟨parts, c, hc, digit⟩
      exact ⟨parts, c, hc, Bool.not_eq_true' _ ▸ digit⟩
    · rintro ⟨parts, c, hc, digit⟩
      exact ⟨parts, c, hc, by rw [digit]; rfl⟩)

/-- No word goes on with this text. -/
def EndsWord (s : List Char) : Prop :=
  ∀ c ∈ s.head?, isWordPart c = false ∧ c ≠ '\\'

theorem EndsWord.of_head {c : Char} {s : List Char} (h : isWordPart c = false)
    (h' : c ≠ '\\' := by decide) : EndsWord (c :: s) := by
  rintro _ ⟨⟩
  exact ⟨h, h'⟩

theorem wordLength_append {w s : List Char} (word : IsWord w) (ends : EndsWord s) :
    wordLength (w ++ s) = w.length := by
  have all {atStart : Bool} {w : List Char} (parts : ∀ c ∈ w, isWordPart c = true)
      (begins : atStart = true → ∀ c ∈ w.head?, isDigit c = false) :
      wordFrom 0 atStart (w ++ s) = w.length := by
    induction w generalizing atStart with
    | nil =>
        cases s with
        | nil => rfl
        | cons c rest =>
            obtain ⟨part, escape⟩ := ends c rfl
            simp [wordFrom, part, escape]
    | cons c rest ih =>
        obtain ⟨part, parts⟩ := List.forall_mem_cons.mp parts
        have escape : c ≠ '\\' := by
          rintro rfl
          exact absurd part (by decide)
        have digit : (atStart && isDigit c) = false := by
          cases atStart with
          | false => rfl
          | true => exact begins rfl c rfl
        have later := @ih false parts fun h => absurd h Bool.false_ne_true
        simp [wordFrom, part, escape, digit, later]
        omega
  obtain ⟨c, hc, digit⟩ := word.begins
  refine all word.parts fun _ d hd => ?_
  cases Option.mem_unique hc hd
  exact digit

theorem isSolid_of_isWordPart {c : Char} (h : isWordPart c = true) : isSolid c = true := by
  unfold isSolid
  rw [Bool.and_eq_true_iff]
  constructor
  · unfold isWordPart at h
    simp only [Bool.not_eq_true', Bool.or_eq_false_iff] at h
    simp [h]
  · rw [bne_iff_ne]
    rintro rfl
    exact absurd h (by decide)

/-- The next lexeme is a word, with some text behind it. -/
structure Begins (s w s' : List Char) : Prop where
  eq : front s = w ++ s'
  word : IsWord w
  ends : EndsWord s'

theorem IsWord.begins_append {w s : List Char} (word : IsWord w) (ends : EndsWord s) :
    Begins (w ++ s) w s := by
  refine ⟨?_, word, ends⟩
  cases w with
  | nil =>
      obtain ⟨c, hc, -⟩ := word.begins
      cases hc
  | cons c rest => exact front_solid (isSolid_of_isWordPart (word.parts c List.mem_cons_self))

theorem Begins.space {s w s' : List Char} (h : Begins s w s') : Begins (' ' :: s) w s' :=
  ⟨(front_space s).trans h.eq, h.word, h.ends⟩

/-- The next lexeme is no word. -/
def NoWord (s : List Char) : Prop :=
  wordLength (front s) = 0

namespace Reader

variable {α β ι : Type} {p q : Reader α} {k : α → Reader β} {s s' w : List Char}
  {P P' : α → Prop} {Q : β → Prop} {a : α}

/-! ## Judgements -/

/-- Wherever a text stands, a reader reads it up to what is left, with a result that
has a property. -/
def Reads (p : Reader α) (s : List Char) (P : α → Prop) (s' : List Char) : Prop :=
  ∀ c : Cursor, c.rest = s → ∃ a d, p c = some (a, d) ∧ P a ∧ d.rest = s'

/-- A reader reads a text up to what is left. -/
abbrev Passes (p : Reader α) (s s' : List Char) : Prop :=
  Reads p s (fun _ => True) s'

/-- Wherever a text stands, a reader fails on it. -/
def Fails (p : Reader α) (s : List Char) : Prop :=
  ∀ c : Cursor, c.rest = s → p c = none

theorem Reads.mono (h : Reads p s P s') (imp : ∀ a, P a → P' a) : Reads p s P' s' := by
  intro c hc
  obtain ⟨a, d, read, ha, hd⟩ := h c hc
  exact ⟨a, d, read, imp a ha, hd⟩

theorem Reads.pass (h : Reads p s P s') : Passes p s s' :=
  h.mono fun _ _ => trivial

theorem Reads.pure (h : P a) : Reads (pure a) s P s :=
  fun c hc => ⟨a, c, rfl, h, hc⟩

theorem Reads.bind {t u : List Char} (h : Reads p s P t) (next : ∀ a, P a → Reads (k a) t Q u) :
    Reads (p >>= k) s Q u := by
  intro c hc
  obtain ⟨a, d, read, ha, hd⟩ := h c hc
  obtain ⟨b, e, read', hb, he⟩ := next a ha d hd
  exact ⟨b, e, bind_eq_some_iff.mpr ⟨a, d, read, read'⟩, hb, he⟩

theorem Reads.left (h : Reads p s P s') : Reads (p <|> q) s P s' := by
  intro c hc
  obtain ⟨a, d, read, ha, hd⟩ := h c hc
  refine ⟨a, d, ?_, ha, hd⟩
  show (p c <|> q c) = _
  rw [read]
  rfl

theorem Reads.right (fails : Fails p s) (h : Reads q s P s') : Reads (p <|> q) s P s' := by
  intro c hc
  obtain ⟨a, d, read, ha, hd⟩ := h c hc
  refine ⟨a, d, ?_, ha, hd⟩
  show (p c <|> q c) = _
  rw [fails c hc, read]
  rfl

theorem Fails.bind (h : Fails p s) : Fails (p >>= k) s := by
  intro c hc
  show (p c).bind _ = none
  rw [h c hc]
  rfl

theorem Reads.bind_fails (h : Reads p s P s') (next : ∀ a, P a → Fails (k a) s') :
    Fails (p >>= k) s := by
  intro c hc
  obtain ⟨a, d, read, ha, hd⟩ := h c hc
  show (p c).bind _ = none
  rw [read]
  exact next a ha d hd

theorem Fails.orElse (h : Fails p s) (h' : Fails q s) : Fails (p <|> q) s := by
  intro c hc
  show (p c <|> q c) = none
  rw [h c hc, h' c hc]
  rfl

theorem fails_failure : Fails (failure : Reader α) s :=
  fun _ _ => rfl

theorem passes_guard {C : Prop} [Decidable C] (h : C) : Passes (guard C : Reader Unit) s s := by
  unfold guard
  rw [if_pos h]
  exact .pure trivial

theorem fails_guard {C : Prop} [Decidable C] (h : ¬ C) : Fails (guard C : Reader Unit) s := by
  unfold guard
  rw [if_neg h]
  exact fails_failure

theorem Reads.optional (h : Reads p s P s') :
    Reads (optional p) s (fun found => ∃ a, found = some a ∧ P a) s' := by
  refine Reads.left (h := ?_)
  intro c hc
  obtain ⟨a, d, read, ha, hd⟩ := h c hc
  exact ⟨some a, d, map_eq_some_iff.mpr ⟨a, read, rfl⟩, ⟨a, rfl, ha⟩, hd⟩

theorem Fails.optional (h : Fails p s) : Reads (optional p) s (· = none) s := by
  refine .right (fun c hc => ?_) (.pure rfl)
  show (p c).bind _ = none
  rw [h c hc]
  rfl

theorem Reads.skipOptional (h : Reads p s P s') : Passes (skipOptional p) s s' :=
  .left (h.bind fun _ _ => .pure trivial)

theorem Fails.skipOptional (h : Fails p s) : Passes (skipOptional p) s s :=
  .right h.bind (.pure trivial)

theorem Reads.test {t : List Char} (h : Reads p s P t) : Reads (test p) s (· = true) s := by
  intro c hc
  obtain ⟨a, d, read, -, -⟩ := h c hc
  refine ⟨true, c, ?_, rfl, hc⟩
  show some ((p c).isSome, c) = _
  rw [read]
  rfl

theorem Fails.test (h : Fails p s) : Reads (test p) s (· = false) s := by
  intro c hc
  refine ⟨false, c, ?_, rfl, hc⟩
  show some ((p c).isSome, c) = _
  rw [h c hc]
  rfl

/-! ## Repetition -/

/-- A step succeeds as often as it can. Each time it reads something. -/
inductive Repeats (step : α → Reader α) (P : α → Prop) (s' : List Char) :
    α → List Char → Prop where
  | stop {a : α} (fails : Fails (step a) s') (holds : P a) : Repeats step P s' a s'
  | next {a : α} {s t : List Char} {Q : α → Prop} (read : Reads (step a) s Q t)
      (shorter : t.length < s.length) (later : ∀ b, Q b → Repeats step P s' b t) :
      Repeats step P s' a s

theorem Repeats.mono {step : α → Reader α} (h : Repeats step P s' a s) (imp : ∀ a, P a → P' a) :
    Repeats step P' s' a s := by
  induction h with
  | stop fails holds => exact .stop fails (imp _ holds)
  | next read shorter _ ih => exact .next read shorter ih

theorem Repeats.iterate {step : α → Reader α} (h : Repeats step P s' a s) :
    Reads (iterate step a) s P s' := by
  have all (fuel : Nat) (enough : s.length < fuel) :
      Reads (iterateFrom step fuel a) s P s' := by
    induction h generalizing fuel with
    | stop fails holds =>
        cases fuel with
        | zero => cases enough
        | succ fuel =>
            intro c hc
            refine ⟨_, c, ?_, holds, hc⟩
            rw [iterateFrom, fails c hc]
    | next read shorter _ ih =>
        cases fuel with
        | zero => cases enough
        | succ fuel =>
            intro c hc
            obtain ⟨b, d, hread, hb, hd⟩ := read c hc
            rw [iterateFrom, hread]
            exact ih b hb fuel (by omega) d hd
  intro c hc
  refine all (c.rest.length + 1) ?_ c hc
  rw [hc]
  exact Nat.lt_succ_self _

/-- Several pieces of a text are read one after the other. What stands behind a piece
has to begin like another piece, or like what follows the last one. -/
theorem reads_many {f : ι → List Char} {R : ι → α → Prop} {B : List Char → Prop}
    {l : List ι} (each : ∀ i ∈ l, ∀ t, B t → Reads p (f i ++ t) (R i) t)
    (proper : ∀ i ∈ l, f i ≠ []) (begins : ∀ i ∈ l, ∀ t, B (f i ++ t)) (behind : B s)
    (fails : Fails p s) :
    Reads (many p) (l.flatMap f ++ s) (fun found => List.Forall₂ R l found) s := by
  have all (found : List α) : Repeats (fun found => do return (← p) :: found)
      (fun after => ∃ more, after = more.reverse ++ found ∧ List.Forall₂ R l more) s
      found (l.flatMap f ++ s) := by
    induction l generalizing found with
    | nil => exact .stop fails.bind ⟨[], rfl, .nil⟩
    | cons i rest ih =>
        obtain ⟨first, each⟩ := List.forall_mem_cons.mp each
        obtain ⟨long, proper⟩ := List.forall_mem_cons.mp proper
        obtain ⟨-, begins⟩ := List.forall_mem_cons.mp begins
        have follows : B (rest.flatMap f ++ s) := by
          cases rest with
          | nil => exact behind
          | cons j more =>
              rw [List.flatMap_cons, List.append_assoc]
              exact begins j List.mem_cons_self _
        rw [List.flatMap_cons, List.append_assoc]
        refine .next (Q := fun after => ∃ a, after = a :: found ∧ R i a)
          ((first _ follows).bind fun a ha => .pure ⟨a, rfl, ha⟩) ?_ ?_
        · have := List.length_pos_iff.mpr long
          simp only [List.length_append]
          omega
        · rintro _ ⟨a, rfl, ha⟩
          refine Repeats.mono (ih each proper begins (a :: found)) ?_
          rintro _ ⟨more, rfl, hmore⟩
          exact ⟨a :: more, by simp, .cons ha hmore⟩
  refine (all []).iterate.bind ?_
  rintro _ ⟨more, rfl, hmore⟩
  refine .pure ?_
  rwa [List.append_nil, List.reverse_reverse]

theorem reads_many_none (fails : Fails p s) : Reads (many p) s (· = []) s := by
  refine (Repeats.stop (P := (· = [])) fails.bind rfl).iterate.bind ?_
  rintro _ rfl
  exact .pure rfl

/-- What is written behind commas. -/
def behindCommas (f : ι → List Char) (l : List ι) : List Char :=
  l.flatMap fun i => ',' :: ' ' :: f i

/-! ## Lexemes -/

theorem reads_look : Reads look s (· = front s) s := by
  rintro c rfl
  exact ⟨_, c, rfl, rfl, rfl⟩

theorem reads_ahead (m : String) :
    Reads (ahead m) s (· = m.toList.isPrefixOf (front s)) s := by
  refine reads_look.bind ?_
  rintro _ rfl
  exact .pure rfl

theorem passes_begin : Passes begin s (front s) := by
  rintro c rfl
  exact ⟨_, _, rfl, trivial, rfl⟩

theorem passes_beginOperand (h : markupComment? (front s) = none) :
    Passes beginOperand s (front s) := by
  rintro c rfl
  have here (fuel : Nat) : c.skipMarkup fuel = c.skipTrivia := by
    cases fuel with
    | zero => rfl
    | succ fuel =>
        have h : markupComment? c.skipTrivia.rest = none := h
        simp only [Cursor.skipMarkup, h]
  refine ⟨_, _, rfl, trivial, ?_⟩
  rw [here]
  rfl

theorem passes_mark {m : String} {t : List Char} (h : front s = m.toList ++ t) :
    Passes (mark m) s t := by
  rintro c rfl
  have there : m.toList <+: c.skipTrivia.rest := ⟨t, h.symm⟩
  refine ⟨(), _, mark_eq_some_iff.mpr ⟨there, rfl⟩, trivial, ?_⟩
  show (front c.rest).drop m.length = t
  rw [h, ← String.length_toList, List.drop_left]

theorem fails_mark {m : String} (h : m.toList.isPrefixOf (front s) = false) :
    Fails (mark m) s := by
  rintro c rfl
  rw [Option.eq_none_iff_forall_ne_some]
  rintro ⟨_, d⟩ read
  have there := List.isPrefixOf_iff_prefix.mpr (mark_eq_some_iff.mp read).1
  have h : m.toList.isPrefixOf c.skipTrivia.rest = false := h
  rw [h] at there
  cases there

theorem reads_word (h : Begins s w s') : Reads word s (w = ·) s' := by
  rintro c rfl
  have length := wordLength_append h.word h.ends
  have rest : c.skipTrivia.rest = w ++ s' := h.eq
  have some : w.length ≠ 0 := by
    obtain ⟨x, hx, -⟩ := h.word.begins
    rw [List.length_eq_zero_iff.ne]
    rintro rfl
    cases hx
  refine ⟨w, _, word_eq_some_iff.mpr ⟨?_, ?_, rfl⟩, rfl, ?_⟩
  · rwa [rest, length]
  · rw [rest, length, List.take_left]
  · show c.skipTrivia.rest.drop (wordLength c.skipTrivia.rest) = s'
    rw [rest, length, List.drop_left]

theorem reads_name (h : Begins s w s') : Reads name s (· = Text.ofChars w) s' := by
  refine (reads_word h).bind ?_
  rintro _ rfl
  exact .pure rfl

theorem passes_keyword {m : String} (h : Begins s m.toList s') : Passes (keyword m) s s' := by
  refine (reads_word h).bind ?_
  rintro _ rfl
  exact passes_guard (beq_self_eq_true _)

theorem reads_lookWord (h : Begins s w s') : Reads lookWord s (w = ·) s := by
  refine reads_look.bind ?_
  rintro _ rfl
  refine .pure ?_
  rw [h.eq, wordLength_append h.word h.ends, List.take_left]

theorem reads_aheadWord (m : String) (h : Begins s w s') :
    Reads (aheadWord m) s (· = (w == m.toList)) s := by
  refine (reads_lookWord h).bind ?_
  rintro _ rfl
  exact .pure rfl

theorem fails_keyword {m : String} (h : Begins s w s') (ne : w ≠ m.toList) :
    Fails (keyword m) s := by
  refine (reads_word h).bind_fails ?_
  rintro _ rfl
  exact fails_guard (by simpa using ne)

theorem fails_word (h : NoWord s) : Fails word s := by
  rintro c rfl
  rw [Option.eq_none_iff_forall_ne_some]
  rintro ⟨_, d⟩ read
  exact (word_eq_some_iff.mp read).1 h

theorem fails_keyword_of_noWord {m : String} (h : NoWord s) : Fails (keyword m) s :=
  (fails_word h).bind

theorem reads_lookWord_of_noWord (h : NoWord s) : Reads lookWord s (· = []) s := by
  refine reads_look.bind ?_
  rintro _ rfl
  refine .pure ?_
  rw [h, List.take_zero]

theorem reads_string {n : Nat} (h : string? (front s) = some n) :
    Reads string s (fun site => site.source = Text.ofChars (((front s).take n).drop 1 |>.take (n - 2)))
      ((front s).drop n) := by
  rintro c rfl
  exact ⟨_, _, string_eq_some_iff.mpr ⟨n, h, rfl, rfl⟩, rfl, rfl⟩

theorem passes_lookWord : Passes lookWord s s :=
  reads_look.bind fun _ _ => .pure trivial

/-- No mark begins like a word. -/
theorem isPrefixOf_eq_false_of_word (h : Begins s w s') (m : String)
    (noWord : ∃ c ∈ m.toList.head?, isWordPart c = false) :
    m.toList.isPrefixOf (front s) = false := by
  obtain ⟨c, hc, part⟩ := noWord
  obtain ⟨d, hd, -⟩ := h.word.begins
  rw [h.eq]
  cases w with
  | nil => cases hd
  | cons d rest =>
      have ne : c ≠ d := by
        rintro rfl
        rw [h.word.parts c List.mem_cons_self] at part
        cases part
      generalize m.toList = chars at hc
      cases chars with
      | nil => cases hc
      | cons e more =>
          cases hc
          simp [List.isPrefixOf, ne]

theorem fails_mark_of_word (h : Begins s w s') (m : String)
    (noWord : ∃ c ∈ m.toList.head?, isWordPart c = false) : Fails (mark m) s :=
  fails_mark (isPrefixOf_eq_false_of_word h m noWord)

/-- What is written behind commas is read one by one. -/
theorem reads_commas {f : ι → List Char} {R : ι → α → Prop} {B : List Char → Prop}
    {l : List ι} (each : ∀ i ∈ l, ∀ t, B t → Reads p (' ' :: f i ++ t) (R i) t)
    (comma : ∀ t, B (',' :: t)) (behind : B s) (stop : Fails (mark ",") s) :
    Reads (many do mark ","; p) (behindCommas f l ++ s) (List.Forall₂ R l ·) s := by
  refine reads_many (B := B) (fun i mem t ht => ?_) (fun _ _ => List.cons_ne_nil _ _)
    (fun i _ t => comma _) behind stop.bind
  exact (passes_mark (t := ' ' :: f i ++ t) (front_solid (by decide))).bind
    fun _ _ => each i mem t ht

theorem reads_sparseList {f : ι → List Char} {B : List Char → Prop} {l : List ι}
    (first : Reads p s P (behindCommas f l ++ s'))
    (each : ∀ i ∈ l, ∀ t, B t → Reads p (' ' :: f i ++ t) P t)
    (comma : ∀ t, B (',' :: t)) (behind : B s') (stop : Fails (mark ",") s') :
    Reads (sparseList p) s (∀ a ∈ ·, P a) s' := by
  refine first.optional.bind ?_
  rintro _ ⟨a, rfl, ha⟩
  refine (reads_commas (p := optional p) (R := fun _ found => ∃ a, found = some a ∧ P a)
    (fun i mem t ht => (each i mem t ht).optional) comma behind stop).bind fun more hmore => ?_
  have all : ∀ found ∈ more, ∃ a, found = some a ∧ P a := by
    clear first each
    induction hmore with
    | nil => exact List.forall_mem_nil _
    | cons h _ ih => exact List.forall_mem_cons.mpr ⟨h, ih⟩
  refine .pure fun b mem => ?_
  obtain ⟨found, mem, rfl⟩ := List.mem_filterMap.mp mem
  obtain ⟨_, ⟨⟩, hb⟩ := List.forall_mem_cons.mpr ⟨⟨a, rfl, ha⟩, all⟩ (some b) mem
  exact hb

theorem reads_looseList {f : ι → List Char} {R : ι → α → Prop} {B : List Char → Prop} {l : List ι}
    (first : Reads p s P (behindCommas f l ++ s'))
    (each : ∀ i ∈ l, ∀ t, B t → Reads p (' ' :: f i ++ t) (R i) t)
    (comma : ∀ t, B (',' :: t)) (behind : B s') (stop : Fails (mark ",") s') :
    Reads (looseList p) s
      (fun found => ∃ a more, found = a :: more ∧ P a ∧ List.Forall₂ R l more) s' := by
  refine first.optional.bind ?_
  rintro _ ⟨a, rfl, ha⟩
  refine (reads_commas each comma behind stop).bind fun more hmore => ?_
  exact stop.skipOptional.bind fun _ _ => .pure ⟨a, more, rfl, ha, hmore⟩

theorem fails_string (h : string? (front s) = none) : Fails string s := by
  rintro c rfl
  rw [Option.eq_none_iff_forall_ne_some]
  rintro ⟨_, d⟩ read
  obtain ⟨n, hn, -⟩ := string_eq_some_iff.mp read
  rw [show string? c.skipTrivia.rest = none from h] at hn
  cases hn

/-! ## Semicolons -/

theorem isBlank_of_isLineBlank {c : Char} (h : isLineBlank c = true) : isBlank c = true := by
  simp only [isLineBlank, isBlank, Bool.or_eq_true, Bool.and_eq_true, decide_eq_true_eq,
    beq_iff_eq] at h ⊢
  omega

theorem endsHere_solid {ending : Ending} {c : Char} {s : List Char} (solid : isSolid c = true)
    (brace : c ≠ '}') : endsHere ending (c :: s) = false := by
  have blank : isBlank c = false := by simpa using ((Bool.and_eq_true_iff ..).mp solid).1
  have lineFeed : c ≠ '\n' := by
    rintro rfl
    cases blank
  have lineBlank : isLineBlank c = false := by
    rw [Bool.eq_false_iff]
    intro h
    rw [isBlank_of_isLineBlank h] at blank
    cases blank
  simp [endsHere, brace, lineFeed, lineBlank]

/-- No missing semicolon is supplied on a line that goes on, unless with a closing brace. -/
theorem missingSemicolon?_eq_none {ending : Ending} {c : Char} {s : List Char} (fuel n : Nat)
    (solid : isSolid c = true) (brace : c ≠ '}') :
    missingSemicolon? ending fuel n (c :: s) = none := by
  cases fuel with
  | zero => rfl
  | succ fuel =>
      have blank : isBlank c = false := by simpa using ((Bool.and_eq_true_iff ..).mp solid).1
      simp [missingSemicolon?, endsHere_solid solid brace, blank, comment?_solid solid]

theorem missingSemicolon?_space_eq_none {ending : Ending} {c : Char} {s : List Char}
    (fuel n : Nat) (solid : isSolid c = true) (brace : c ≠ '}') :
    missingSemicolon? ending fuel n (' ' :: c :: s) = none := by
  cases fuel with
  | zero => rfl
  | succ fuel =>
      have blank : isBlank c = false := by simpa using ((Bool.and_eq_true_iff ..).mp solid).1
      have space : isBlank ' ' = true := by decide
      have here : endsHere ending (' ' :: c :: s) = false := by
        rw [← endsHere_solid (s := s) solid brace]
        rfl
      simp [missingSemicolon?, here, blank, space, comment?_solid solid]

theorem reads_ends {ending : Ending} {c : Char} {s : List Char} (solid : isSolid c = true)
    (brace : c ≠ '}') : Reads (ends ending) (c :: s) (· = false) (c :: s) := by
  rintro d hd
  refine ⟨_, d, rfl, ?_, hd⟩
  rw [hd, missingSemicolon?_eq_none _ _ solid brace]
  rfl

theorem reads_ends_space {ending : Ending} {c : Char} {s : List Char} (solid : isSolid c = true)
    (brace : c ≠ '}') : Reads (ends ending) (' ' :: c :: s) (· = false) (' ' :: c :: s) := by
  rintro d hd
  refine ⟨_, d, rfl, ?_, hd⟩
  rw [hd, missingSemicolon?_space_eq_none _ _ solid brace]
  rfl

theorem passes_semicolon {ending : Ending} {s : List Char} :
    Passes (semicolon ending) (';' :: s) s := by
  intro c hc
  obtain ⟨a, d, read, -, hd⟩ := passes_mark (m := ";") (s := ';' :: s) (t := s)
    (front_solid (by decide)) c hc
  refine ⟨a, d, ?_, trivial, hd⟩
  unfold semicolon
  rw [get_bind_eq, hc, missingSemicolon?_eq_none _ _ (by decide) (by decide)]
  exact read

end Reader

end Playground.Source
