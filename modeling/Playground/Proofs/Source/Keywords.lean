import Playground.Proofs.Source.Layout

/-!
# The words in the stretches of statements

The stretch that linking may replace in a statement begins with the word of the
statement, `import` or `export`. What is in front of an exported declaration or
value has nothing else in it than `export` and maybe `default`, with blanks and
comments behind the words. There is one exception. An `export` may have decorators in
front of it, and as the stretch begins where the statement does, they are in it.
-/

namespace Playground.Source

open Reader

/-! ## Blanks and comments -/

/-- Blanks and comments, and nothing else. -/
inductive IsTrivia : List Char → Prop
  | nil : IsTrivia []
  | blank {c : Char} {more : List Char} (h : isBlank c = true) (later : IsTrivia more) :
      IsTrivia (c :: more)
  | line {body more : List Char} (h : ∀ c ∈ body, isLineEnd c = false) (later : IsTrivia more) :
      IsTrivia ('/' :: '/' :: (body ++ more))
  | block {body more : List Char} (h : ¬ ['*', '/'] <:+: body) (later : IsTrivia more) :
      IsTrivia ('/' :: '*' :: (body ++ '*' :: '/' :: more))

variable {source : List Char} {n k fuel : Nat}

/-- A block comment is closed where it can be closed first. -/
theorem blockCommentFrom_eq_some (h : blockCommentFrom n source = some k) :
    ∃ body, source.take (k - n) = body ++ ['*', '/'] ∧ ¬ ['*', '/'] <:+: body ∧
      n + body.length + 2 = k := by
  fun_induction blockCommentFrom n source with
  | case1 => cases h
  | case2 n rest =>
      cases h
      refine ⟨[], ?_, ?_, rfl⟩
      · rw [Nat.add_sub_cancel_left]
        rfl
      · exact fun inside => by simpa using inside.length_le
  | case3 n c rest unclosed ih =>
      obtain ⟨body, taken, inside, length⟩ := ih h
      have passed : k - n = k - (n + 1) + 1 := by omega
      refine ⟨c :: body, ?_, ?_, ?_⟩
      · rw [passed, List.take_succ_cons, taken]
        rfl
      · rw [List.infix_cons_iff, not_or]
        refine ⟨fun begins => ?_, inside⟩
        obtain ⟨rfl, after, rfl⟩ := List.cons_prefix_cons.mp begins
        have front : '/' :: after ++ ['*', '/'] <+: rest := taken ▸ List.take_prefix _ _
        obtain ⟨behind, rfl⟩ := front
        exact unclosed _ rfl rfl
      · rw [List.length_cons]
        omega

theorem comment?_eq_some (h : comment? source = some k) :
    2 ≤ k ∧ ∀ more, IsTrivia more → IsTrivia (source.take k ++ more) := by
  unfold comment? at h
  split at h
  · next rest =>
      cases h
      refine ⟨Nat.le_add_right _ _, fun more later => ?_⟩
      rw [Nat.add_comm, List.take_succ_cons, List.take_succ_cons,
        ← List.prefix_iff_eq_take.mp (List.takeWhile_prefix _)]
      refine .line (fun c mem => ?_) later
      simpa using List.all_eq_true.mp List.all_takeWhile c mem
  · next rest =>
      obtain ⟨body, taken, inside, length⟩ := blockCommentFrom_eq_some h
      have passed : k = k - 2 + 2 := by omega
      refine ⟨by omega, fun more later => ?_⟩
      rw [passed, List.take_succ_cons, List.take_succ_cons, taken]
      have closed := IsTrivia.block inside later
      simpa using closed
  · cases h

/-- What is passed over in front of a lexeme is blank, and there is nothing more of it. -/
theorem isTrivia_triviaFrom (enough : source.length < fuel) :
    ∃ k, triviaFrom fuel n source = n + k ∧ IsTrivia (source.take k) ∧
      triviaLength (source.drop k) = 0 := by
  induction fuel generalizing n source with
  | zero => cases enough
  | succ fuel ih =>
      unfold triviaFrom
      split
      · exact ⟨0, rfl, .nil, rfl⟩
      · next c rest =>
          rw [List.length_cons] at enough
          split
          · next blank =>
              obtain ⟨k, passed, trivia, solid⟩ := @ih rest (n + 1) (by omega)
              exact ⟨k + 1, by omega, .blank blank trivia, solid⟩
          · next solid =>
              split
              · next j comment =>
                  obtain ⟨long, trivia⟩ := comment?_eq_some comment
                  have shorter : ((c :: rest).drop j).length < fuel := by
                    rw [List.length_drop, List.length_cons]
                    omega
                  obtain ⟨k, passed, more, done⟩ := @ih ((c :: rest).drop j) (n + j) shorter
                  refine ⟨j + k, by omega, ?_, ?_⟩
                  · rw [List.take_add]
                    exact trivia _ more
                  · rwa [← List.drop_drop]
              · next none =>
                  refine ⟨0, rfl, .nil, ?_⟩
                  rw [List.drop_zero, triviaLength, triviaFrom]
                  simp [solid, none]

theorem isTrivia_take (source : List Char) : IsTrivia (source.take (triviaLength source)) := by
  obtain ⟨k, passed, trivia, -⟩ := @isTrivia_triviaFrom source 0 _ (Nat.lt_succ_self _)
  rw [Nat.zero_add] at passed
  rwa [triviaLength, passed]

theorem triviaLength_drop (source : List Char) :
    triviaLength (source.drop (triviaLength source)) = 0 := by
  obtain ⟨k, passed, -, solid⟩ := @isTrivia_triviaFrom source 0 _ (Nat.lt_succ_self _)
  rw [Nat.zero_add] at passed
  rw [show triviaLength source = k from passed]
  exact solid

/-! ## Places in a source -/

/-- What a source has between two places. -/
def between {α : Type} (source : List α) (start stop : Nat) : List α :=
  (source.drop start).take (stop - start)

theorem between_append {α : Type} {source : List α} {start middle stop : Nat}
    (le : start ≤ middle) (le' : middle ≤ stop) :
    between source start middle ++ between source middle stop = between source start stop := by
  have length : stop - start = (middle - start) + (stop - middle) := by omega
  have place : start + (middle - start) = middle := by omega
  unfold between
  rw [length, List.take_add, List.drop_drop, place]

/-- A cursor stands in a source. -/
def Cursor.In (source : List Char) (c : Cursor) : Prop :=
  c.rest = source.drop c.pos

variable {c d : Cursor} {new : List ImportCall} {u : Unit}

theorem Cursor.In.of_leads (inside : c.In source) (leads : c.Leads new d) : d.In source := by
  obtain ⟨front, rest, pos⟩ := leads.rest
  rw [Cursor.In, pos, ← List.drop_drop, ← inside, rest, List.drop_left]

/-- What is passed over from one cursor to another one. -/
theorem Cursor.In.between_eq (inside : c.In source) (leads : c.Leads new d) :
    c.rest = between source c.pos d.pos ++ d.rest := by
  obtain ⟨front, rest, pos⟩ := leads.rest
  rw [between, ← inside, pos, Nat.add_sub_cancel_left, rest, List.take_left]

namespace Cursor

theorem skipTrivia_skipTrivia (c : Cursor) : c.skipTrivia.skipTrivia = c.skipTrivia := by
  have none : triviaLength c.skipTrivia.rest = 0 := triviaLength_drop c.rest
  rw [Cursor.skipTrivia, none]
  rfl

theorem skipTrivia_skipMarkup (fuel : Nat) (c : Cursor) :
    (c.skipMarkup fuel).skipTrivia = c.skipMarkup fuel := by
  induction fuel generalizing c with
  | zero => exact skipTrivia_skipTrivia c
  | succ fuel ih =>
      unfold Cursor.skipMarkup
      simp only []
      split
      · exact ih _
      · exact skipTrivia_skipTrivia c

theorem In.isTrivia (inside : c.In source) :
    IsTrivia (between source c.pos c.skipTrivia.pos) := by
  have taken : between source c.pos c.skipTrivia.pos = c.rest.take (triviaLength c.rest) := by
    show (source.drop c.pos).take (c.pos + triviaLength c.rest - c.pos) = _
    rw [← inside, Nat.add_sub_cancel_left]
  rw [taken]
  exact isTrivia_take c.rest

end Cursor

/-! ## Words -/

theorem keyword_eq_some {w : String} (h : keyword w c = some (u, d)) :
    w.toList <+: c.skipTrivia.rest ∧ c.skipTrivia.advance w.length = d := by
  obtain ⟨read, e, word, h⟩ := bind_eq_some_iff.mp h
  obtain ⟨same, rfl⟩ := guard_eq_some_iff.mp h
  obtain ⟨-, taken, rfl⟩ := word_eq_some_iff.mp word
  rw [eq_of_beq same] at taken
  have length := congrArg List.length taken
  rw [List.length_take, Nat.min_eq_left (wordLength_le _), String.length_toList] at length
  exact ⟨taken ▸ List.take_prefix _ _, by rw [length]⟩

theorem between_keyword {w : String} (inside : c.In source) (h : keyword w c = some (u, d)) :
    between source c.skipTrivia.pos d.pos = w.toList := by
  obtain ⟨⟨after, begins⟩, rfl⟩ := keyword_eq_some h
  have inside' : c.skipTrivia.In source := inside.of_leads (.skipTrivia c)
  show (source.drop c.skipTrivia.pos).take (c.skipTrivia.pos + w.length - c.skipTrivia.pos) = _
  rw [← inside', ← begins, Nat.add_sub_cancel_left, ← String.length_toList, List.take_left]

/-! ## What is in front of an export -/

/-- The word `default`, with blanks and comments around it. -/
def IsDefaulted (t : List Char) : Prop :=
  ∃ before after, t = before ++ "default".toList ++ after ∧ IsTrivia before ∧ IsTrivia after

/-- What is between the word `export` and what is exported. -/
def Export.Follows (source : List Char) (start : Nat) : Export → Prop
  | .declaration isDefault stop _ =>
    if isDefault then IsDefaulted (between source start stop)
    else IsTrivia (between source start stop)
  | .value stop => IsDefaulted (between source start stop)
  | _ => True

variable {g : Grammar} [g.Sound]

omit [g.Sound] in
theorem follows_of_exportClause {e : Export} {start : Nat} (h : exportClause c = some (e, d)) :
    e.Follows source start := by
  obtain ⟨pairs, _, -, h⟩ := bind_eq_some_iff.mp h
  obtain ⟨_, _, -, h⟩ := bind_eq_some_iff.mp h
  split at h
  · obtain ⟨_, _, -, h⟩ := bind_eq_some_iff.mp h
    obtain ⟨rfl, -⟩ := pure_eq_some_iff.mp h
    trivial
  · obtain ⟨source, _, -, h⟩ := bind_eq_some_iff.mp h
    obtain ⟨_, _, -, h⟩ := bind_eq_some_iff.mp h
    obtain ⟨rfl, -⟩ := pure_eq_some_iff.mp h
    cases source <;> trivial

omit [g.Sound] in
theorem isDefaulted_of_keyword (inside : c.In source) (word : keyword "default" c = some (u, d)) :
    IsDefaulted (between source c.pos d.skipTrivia.pos) := by
  have leads : c.skipTrivia.Leads [] d := by
    obtain ⟨begins, rfl⟩ := keyword_eq_some word
    exact .advance _ (String.length_toList ▸ begins.length_le)
  have inside' : d.In source := (inside.of_leads (.skipTrivia c)).of_leads leads
  refine ⟨between source c.pos c.skipTrivia.pos, between source d.pos d.skipTrivia.pos, ?_,
    inside.isTrivia, inside'.isTrivia⟩
  rw [← between_keyword inside word]
  have first := (Cursor.Leads.skipTrivia c).pos_le
  have last := (Cursor.Leads.skipTrivia d).pos_le
  rw [between_append first leads.pos_le, between_append (Nat.le_trans first leads.pos_le) last]

/-- Looking ahead does not move the cursor. -/
theorem look_bind {α : Type} {k : List Char → Reader α} {a : α}
    (h : (look >>= k) c = some (a, d)) : ∃ next, k next c = some (a, d) :=
  ⟨c.skipTrivia.rest, h⟩

omit [g.Sound] in
theorem follows_of_exportRest {e : Export} (inside : c.In source)
    (h : exportRest g c = some (e, d)) : e.Follows source c.pos := by
  obtain ⟨next, h⟩ := look_bind h
  split at h
  · obtain ⟨_, _, -, h⟩ := bind_eq_some_iff.mp h
    obtain ⟨_, _, -, h⟩ := bind_eq_some_iff.mp h
    obtain ⟨_, _, -, h⟩ := bind_eq_some_iff.mp h
    obtain ⟨_, _, -, h⟩ := bind_eq_some_iff.mp h
    obtain ⟨rfl, -⟩ := pure_eq_some_iff.mp h
    trivial
  · exact follows_of_exportClause h
  · obtain ⟨_, _, -, h⟩ := bind_eq_some_iff.mp h
    obtain ⟨_, _, -, h⟩ := bind_eq_some_iff.mp h
    obtain ⟨_, _, -, h⟩ := bind_eq_some_iff.mp h
    obtain ⟨rfl, -⟩ := pure_eq_some_iff.mp h
    trivial
  · obtain ⟨_, _, looked, h⟩ := bind_eq_some_iff.mp h
    cases looked
    split at h
    · obtain ⟨_, e, word, h⟩ := bind_eq_some_iff.mp h
      have defaulted := isDefaulted_of_keyword inside word
      obtain ⟨start, _, begun, h⟩ := bind_eq_some_iff.mp h
      obtain ⟨rfl, rfl⟩ := begin_eq_some_iff.mp begun
      obtain ⟨found, _, -, h⟩ := bind_eq_some_iff.mp h
      split at h
      · obtain ⟨rfl, -⟩ := pure_eq_some_iff.mp h
        exact defaulted
      · obtain ⟨_, _, -, h⟩ := bind_eq_some_iff.mp h
        obtain ⟨_, _, -, h⟩ := bind_eq_some_iff.mp h
        obtain ⟨rfl, -⟩ := pure_eq_some_iff.mp h
        exact defaulted
    · obtain ⟨_, _, tested, h⟩ := bind_eq_some_iff.mp h
      cases tested
      split at h
      · obtain ⟨_, _, -, h⟩ := bind_eq_some_iff.mp h
        exact follows_of_exportClause h
      · obtain ⟨_, _, looked, h⟩ := bind_eq_some_iff.mp h
        cases looked
        split at h
        · obtain ⟨_, _, -, h⟩ := bind_eq_some_iff.mp h
          obtain ⟨_, _, -, h⟩ := bind_eq_some_iff.mp h
          obtain ⟨_, _, -, h⟩ := bind_eq_some_iff.mp h
          obtain ⟨_, _, -, h⟩ := bind_eq_some_iff.mp h
          obtain ⟨rfl, -⟩ := pure_eq_some_iff.mp h
          trivial
        · obtain ⟨start, _, begun, h⟩ := bind_eq_some_iff.mp h
          obtain ⟨rfl, rfl⟩ := begin_eq_some_iff.mp begun
          obtain ⟨_, _, -, h⟩ := bind_eq_some_iff.mp h
          obtain ⟨rfl, -⟩ := pure_eq_some_iff.mp h
          exact inside.isTrivia

/-- The word `export` and, for the default, `default`, with blanks and comments behind them. -/
def IsExporting (isDefault : Bool) (t : List Char) : Prop :=
  ∃ rest, t = "export".toList ++ rest ∧ if isDefault then IsDefaulted rest else IsTrivia rest

/-- What is in front of an exported declaration or value: the words that export it, and in
front of them nothing or decorators. -/
def IsLead (isDefault : Bool) (t : List Char) : Prop :=
  ∃ front words, t = front ++ words ∧ (front = [] ∨ front.head? = some '@') ∧
    IsExporting isDefault words

/-- What a stretch that linking may replace begins with. -/
def Item.Worded (source : List Char) : Item → Prop
  | .importing i => "import".toList <+: source.drop i.span.start
  | .exporting span (.declaration isDefault start _) =>
    IsLead isDefault (between source span.start start)
  | .exporting span (.value start) => IsLead true (between source span.start start)
  | .exporting span (.clause _) | .exporting span (.reExport _ _) =>
    "export".toList <+: source.drop span.start
  | _ => True

omit [g.Sound] in
/-- Decorators begin with their sign. -/
theorem begins_of_decorators (h : decorators g c = some (u, d)) :
    c.skipTrivia.rest.head? = some '@' := by
  obtain ⟨_, _, first, -⟩ := bind_eq_some_iff.mp h
  obtain ⟨_, _, sign, -⟩ := bind_eq_some_iff.mp first
  obtain ⟨⟨after, begins⟩, -⟩ := mark_eq_some_iff.mp sign
  rw [← begins]
  rfl

theorem worded_of_exportStatement {e : Export} {stop : Nat} (inside : c.In source)
    (solid : c.skipTrivia = c) (h : exportStatement g c = some (e, d)) :
    (Item.exporting ⟨c.pos, stop⟩ e).Worded source := by
  obtain ⟨decorated, c₁, first, h⟩ := bind_eq_some_iff.mp h
  obtain ⟨_, c₂, word, h⟩ := bind_eq_some_iff.mp h
  obtain ⟨found, c₃, rest, h⟩ := bind_eq_some_iff.mp h
  obtain ⟨_, _, fits, h⟩ := bind_eq_some_iff.mp h
  obtain ⟨fits, rfl⟩ := guard_eq_some_iff.mp fits
  obtain ⟨rfl, rfl⟩ := pure_eq_some_iff.mp h
  obtain ⟨_, leads⟩ := leads_of first
  have skipped := leads.trans (.skipTrivia c₁)
  have inside₁ : c₁.In source := inside.of_leads leads
  have export' := between_keyword inside₁ word
  have moved : c₁.skipTrivia.pos ≤ c₂.pos := by
    obtain ⟨-, rfl⟩ := keyword_eq_some word
    exact Nat.le_add_right _ _
  have follows := follows_of_exportRest (inside₁.of_leads (leads_of_quiet word)) rest
  obtain ⟨_, -, placed⟩ := placed_of_exportRest rest
  have front : between source c.pos c₁.skipTrivia.pos = [] ∨
      (between source c.pos c₁.skipTrivia.pos).head? = some '@' := by
    rcases optional_eq_some first with ⟨_, -, read⟩ | ⟨-, rfl⟩
    · have begins := begins_of_decorators read
      rw [solid, inside.between_eq skipped] at begins
      generalize between source c.pos c₁.skipTrivia.pos = front at begins
      cases front with
      | nil => exact .inl rfl
      | cons => exact .inr begins
    · rw [solid, between, Nat.sub_self]
      exact .inl rfl
  have lead {start : Nat} {isDefault : Bool} (le : c₂.pos ≤ start)
      (behind : if isDefault then IsDefaulted (between source c₂.pos start)
        else IsTrivia (between source c₂.pos start)) :
      IsLead isDefault (between source c.pos start) := by
    refine ⟨_, _, (between_append skipped.pos_le (Nat.le_trans moved le)).symm, front, _, ?_,
      behind⟩
    rw [← export', between_append moved le]
  cases found with
  | declaration isDefault start => exact lead placed.1 follows
  | value start => exact lead placed.1 follows
  -- There are no decorators.
  | clause | reExport =>
      rcases optional_eq_some first with ⟨_, rfl, -⟩ | ⟨-, rfl⟩
      · cases fits
      · obtain ⟨begins, -⟩ := keyword_eq_some word
        rw [solid, inside] at begins
        exact begins
  | other => trivial

/-! ## Statements -/

omit [g.Sound] in
theorem worded_of_importStatement {i : Import} (inside : c.In source)
    (h : importStatement g c = some (some i, d)) : (Item.importing i).Worded source := by
  have span := span_of_importStatement h
  obtain ⟨_, e, begun, h⟩ := bind_eq_some_iff.mp h
  obtain ⟨-, rfl⟩ := begin_eq_some_iff.mp begun
  obtain ⟨_, _, word, -⟩ := bind_eq_some_iff.mp h
  obtain ⟨begins, -⟩ := keyword_eq_some word
  have inside' : c.skipTrivia.In source := inside.of_leads (.skipTrivia c)
  rw [c.skipTrivia_skipTrivia, inside'] at begins
  rw [Item.Worded, span]
  exact begins

theorem worded_of_item {found : Item} (inside : c.In source) (h : item g c = some (found, d)) :
    found.Worded source := by
  have inside := inside.of_leads (.skipMarkup c.rest.length c)
  cases read_of_item h with
  | importing read => exact worded_of_importStatement inside read
  | exporting read =>
      exact worded_of_exportStatement inside (Cursor.skipTrivia_skipMarkup _ c) read
  | other => trivial

theorem worded_of_chain {items : List Item} (inside : c.In source)
    (h : Chain (item g) c items d) : ∀ found ∈ items, found.Worded source := by
  induction h with
  | nil c => exact List.forall_mem_nil _
  | cons first _ ih =>
      obtain ⟨_, leads, -⟩ := placed_of_item first
      exact List.forall_mem_cons.mpr ⟨worded_of_item inside first, ih (inside.of_leads leads)⟩

/-- Every statement of a source is worded as it says. -/
theorem worded_of_outline {o : Outline} (h : outline? source = some o) :
    ∀ found ∈ o.items, found.Worded source := by
  obtain ⟨c, d, line, many, -⟩ := parts_of_outline h
  have begins : Cursor.In source { rest := source } := rfl
  exact worded_of_chain (begins.of_leads (leads_of_quiet line)) (chain_of_many many)

end Playground.Source
