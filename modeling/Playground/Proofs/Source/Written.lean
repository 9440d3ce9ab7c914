import Playground.Proofs.Source.Quoted
import Playground.Source.Module

/-!
# Reading the declarations that the linker writes

A chunk has declarations that no source had, of one name by another or of an object
that holds what a module exports. Each is followed through the grammar rule by rule.

Most of the work is to see where an expression ends. Behind an operand the grammar
looks for what could be appended to it and for an operator, so what comes behind an
expression must be neither. It is a semicolon, a comma or something that closes.
-/

namespace Playground.Source

open Reader

variable {α : Type} {g : Grammar} {place : Place} {s s' t w name value : List Char}

/-- Words that are no names. -/
def reserved : List String :=
  ["async", "await", "break", "case", "catch", "class", "const", "continue", "debugger",
    "default", "delete", "do", "else", "enum", "export", "extends", "false", "finally", "for",
    "function", "if", "import", "in", "instanceof", "new", "null", "return", "super", "switch",
    "this", "throw", "true", "try", "type", "typeof", "undefined", "var", "void", "while", "with",
    "yield"]

/-- A name that is written without escapes. -/
structure IsName (w : List Char) : Prop where
  word : IsWord w
  free : ∀ r ∈ reserved, w ≠ r.toList

instance (w : List Char) : Decidable (IsName w) :=
  decidable_of_iff (IsWord w ∧ ∀ r ∈ reserved, w ≠ r.toList)
    ⟨fun h => ⟨h.1, h.2⟩, fun h => ⟨h.word, h.free⟩⟩

theorem IsName.is_eq_false {m : String} (h : IsName w) (mem : m ∈ reserved := by decide) :
    (w == m.toList) = false :=
  beq_false_of_ne (h.free m mem)

/-! ## Values -/

/-- An expression cannot go on with a text. -/
structure Closes (ending : Ending) (s : List Char) : Prop where
  begins : ∃ c ∈ [';', ',', ')', '}'], ∃ t, front s = c :: t
  ends : Reads (ends ending) s (· = false) s
  word : EndsWord s

theorem Closes.noWord {ending : Ending} (h : Closes ending s) : NoWord s := by
  obtain ⟨c, hc, t, eq⟩ := h.begins
  rw [NoWord, eq]
  simp only [List.mem_cons, List.not_mem_nil, or_false] at hc
  rcases hc with rfl | rfl | rfl | rfl <;> rfl

theorem fails_append {shape : Shape} (h : Closes place.ending s) :
    Fails (append g place shape) s := by
  unfold append
  by_cases value : shape.value = true
  · refine (passes_guard value).bind_fails fun _ _ => ?_
    refine h.ends.bind_fails ?_
    rintro _ rfl
    refine (passes_guard rfl).bind_fails fun _ _ => ?_
    refine reads_look.bind_fails ?_
    rintro _ rfl
    have word : Fails (do
        keyword "as" <|> keyword "satisfies"
        g.type place.ending
        return ({} : Shape)) s :=
      ((fails_keyword_of_noWord h.noWord).orElse (fails_keyword_of_noWord h.noWord)).bind
    obtain ⟨c, hc, t, eq⟩ := h.begins
    rw [eq]
    simp only [List.mem_cons, List.not_mem_nil, or_false] at hc
    rcases hc with rfl | rfl | rfl | rfl <;> exact word
  · exact (fails_guard value).bind

theorem fails_operation {shape : Shape} (h : Closes place.ending s) :
    Fails (operation g place shape) s := by
  unfold operation
  refine h.ends.bind_fails ?_
  rintro _ rfl
  refine (passes_guard rfl).bind_fails fun _ _ => ?_
  refine .orElse (.bind ?_) ?_
  · unfold readOperator
    refine reads_look.bind_fails ?_
    rintro _ rfl
    have words := (fails_keyword_of_noWord (m := "in") h.noWord).orElse
      (fails_keyword_of_noWord (m := "instanceof") h.noWord)
    obtain ⟨c, hc, t, eq⟩ := h.begins
    rw [eq]
    simp only [List.mem_cons, List.not_mem_nil, or_false] at hc
    rcases hc with rfl | rfl | rfl | rfl <;> exact words.bind
  · by_cases value : shape.value = true
    · refine (passes_guard value).bind_fails fun _ _ => ?_
      refine Fails.bind ?_
      unfold questionMark
      refine reads_look.bind_fails ?_
      rintro _ rfl
      obtain ⟨c, hc, t, eq⟩ := h.begins
      rw [eq]
      simp only [List.mem_cons, List.not_mem_nil, or_false] at hc
      rcases hc with rfl | rfl | rfl | rfl <;> exact fails_failure
    · exact (fails_guard value).bind

/-- A word that is a value. -/
inductive IsValueWord (w : List Char) : Prop where
  | name (h : IsName w)
  | constant (h : w = "null".toList ∨ w = "undefined".toList)

theorem IsValueWord.word (h : IsValueWord w) : IsWord w := by
  rcases h with h | rfl | rfl
  · exact h.word
  · decide
  · decide

theorem reads_wordOperand {constructor : Reader Shape} (h : IsValueWord w) (begins : Begins s w s')
    (noArrow : "=>".toList.isPrefixOf (front s') = false) :
    Reads (wordOperand g place constructor) s (·.value = true) s' := by
  unfold wordOperand
  refine (reads_lookWord begins).bind ?_
  rintro _ rfl
  have some : w ≠ [] := by
    obtain ⟨c, hc, -⟩ := begins.word.begins
    rintro rfl
    cases hc
  refine (passes_guard some).bind fun _ _ => ?_
  rcases h with h | h
  · simp only [h.is_eq_false (m := "function"), h.is_eq_false (m := "class"),
      h.is_eq_false (m := "new"), h.is_eq_false (m := "typeof"), h.is_eq_false (m := "void"),
      h.is_eq_false (m := "delete"), h.is_eq_false (m := "await"), h.is_eq_false (m := "yield"),
      h.is_eq_false (m := "import"), h.is_eq_false (m := "async"), h.is_eq_false (m := "this"),
      h.is_eq_false (m := "super"), h.is_eq_false (m := "true"), h.is_eq_false (m := "false"),
      h.is_eq_false (m := "null"), h.is_eq_false (m := "undefined"), List.any_cons, List.any_nil,
      Bool.or_false, Bool.false_eq_true, if_false]
    refine .right (fails_guard Bool.false_ne_true).bind ?_
    refine .right (fails_guard Bool.false_ne_true).bind ?_
    refine (reads_name begins).bind ?_
    rintro _ rfl
    refine (reads_ahead "=>").bind ?_
    rintro _ rfl
    rw [if_neg (by rw [noArrow]; exact Bool.false_ne_true)]
    exact .pure rfl
  · have rest : Reads (do let _ ← word; return ({} : Shape)) s (·.value = true) s' :=
      (reads_word begins).bind fun _ _ => .pure rfl
    rcases h with rfl | rfl <;> exact rest

theorem markupComment?_word (h : IsWord w) : markupComment? (w ++ s) = none := by
  obtain ⟨c, hc, -⟩ := h.begins
  cases w with
  | nil => cases hc
  | cons c rest =>
      have part := h.parts c List.mem_cons_self
      rw [List.cons_append]
      generalize rest ++ s = more
      unfold markupComment?
      split
      · next h =>
          cases h
          cases part
      · next h =>
          cases h
          cases part
      · rfl

theorem number?_eq_none {c : Char} (digit : isDigit c = false) (point : c ≠ '.') :
    number? (c :: s) = none := by
  have run : digitRun isDigit (c :: s) = 0 := by simp [digitRun, digit]
  unfold number?
  split
  iterate 6
    next h =>
      cases h
      cases digit
  · next h =>
      cases h
      exact absurd rfl point
  · simp [run]

theorem reads_operand (h : IsValueWord w) (begins : Begins s w s')
    (noArrow : "=>".toList.isPrefixOf (front s') = false) :
    Reads (operand g place) s (·.value = true) s' := by
  have again := begins.word.begins_append begins.ends
  unfold operand operandWith
  have markup : markupComment? (front s) = none := by
    rw [begins.eq]
    exact markupComment?_word begins.word
  refine (passes_beginOperand markup).bind fun _ _ => ?_
  rw [begins.eq]
  refine reads_look.bind ?_
  rintro _ rfl
  rw [again.eq]
  have word : Reads (wordOperand g place (constructorOperand g place)) (w ++ s') (·.value = true) s' :=
    reads_wordOperand h again noArrow
  cases w with
  | nil =>
      obtain ⟨c, hc, -⟩ := begins.word.begins
      cases hc
  | cons c rest =>
      have part := begins.word.parts c List.mem_cons_self
      rw [List.cons_append] at word ⊢
      generalize rest ++ s' = more at word ⊢
      split
      case h_15 h =>
        cases h
        obtain ⟨d, hd, digit⟩ := begins.word.begins
        cases hd
        have quotes : (c == '"' || c == '\'') = false := by
          rw [Bool.or_eq_false_iff]
          constructor
          all_goals
            refine beq_false_of_ne ?_
            rintro rfl
            cases part
        have point : c ≠ '.' := by
          rintro rfl
          cases part
        rw [quotes, number?_eq_none digit point]
        exact word
      all_goals
        next h => cases h <;> cases part

theorem Closes.noArrow {ending : Ending} (h : Closes ending s) :
    "=>".toList.isPrefixOf (front s) = false := by
  obtain ⟨c, hc, t, eq⟩ := h.begins
  rw [eq]
  simp only [List.mem_cons, List.not_mem_nil, or_false] at hc
  rcases hc with rfl | rfl | rfl | rfl <;> rfl

/-- An expression that is a word. -/
theorem reads_expression_word (h : IsValueWord w) (begins : Begins s w s')
    (closes : Closes place.ending s') :
    Reads (expressionBody g place) s (·.value = true) s' := by
  refine (reads_operand h begins closes.noArrow).bind fun shape value => ?_
  refine (Repeats.stop (P := (·.value = true)) (fails_append closes) value).iterate.bind ?_
  exact fun shape value => .right (fails_operation closes) (.pure value)

/-! ## Objects -/

theorem reads_modifiers_none {order : List String} (h : ∀ m ∈ order, Fails (keyword m) s) :
    Reads (modifiers order) s (· = []) s := by
  unfold modifiers
  induction order with
  | nil => exact .pure rfl
  | cons m rest ih =>
      obtain ⟨first, later⟩ := List.forall_mem_cons.mp h
      refine (first.bind).test.bind ?_
      rintro _ rfl
      exact ih later

theorem fails_modifiedMethod (words : ∀ m ∈ memberModifiers, Fails (keyword m) s)
    (star : Fails (mark "*") s) : Fails (modifiedMethod g) s := by
  refine (reads_modifiers_none words).bind_fails ?_
  rintro _ rfl
  refine star.optional.bind_fails ?_
  rintro _ rfl
  exact (fails_guard (by simp)).bind

theorem reads_objectEntry (spread : Fails (mark "...") s)
    (words : ∀ m ∈ memberModifiers, Fails (keyword m) s) (star : Fails (mark "*") s)
    (name : Passes (propertyName g) s (':' :: t))
    (value : Reads (g.expression .inner) t (·.value = true) s') :
    Reads (objectEntry g) s (·.1 = true) s' := by
  refine .right spread.bind (.right (fails_modifiedMethod words star) ?_)
  refine passes_lookWord.bind fun _ _ => ?_
  refine name.bind fun _ _ => ?_
  refine reads_look.bind ?_
  rintro _ rfl
  rw [front_solid (by decide)]
  refine (passes_mark (front_solid (by decide))).bind fun _ _ => ?_
  exact value.bind fun shape h => .pure h

theorem closes_never {c : Char} (mem : c ∈ [';', ',', ')', '}']) (eq : front s = c :: t)
    (word : EndsWord s) : Closes .never s where
  begins := ⟨c, mem, t, eq⟩
  ends := by
    rintro d rfl
    exact ⟨false, d, rfl, rfl, rfl⟩
  word := word

theorem closes_comma {s : List Char} : Closes .never (',' :: s) :=
  closes_never (c := ',') (by decide) (front_solid (by decide)) (.of_head (by decide))

/-- An entry of an object that the linker writes: a quoted name and a word. -/
def entryText (entry : Text × List Char) : List Char :=
  (Json.renderString true entry.1).toCharsD ++ ':' :: ' ' :: entry.2

/-- The object that holds the exports of a module. -/
def objectChars (entries : List (Text × List Char)) : List Char :=
  '\x7b' :: ' ' :: ("__proto__".toList ++ ':' :: ' ' :: ("null".toList ++
    (behindCommas entryText entries ++ [' ', '\x7d'])))

/-- A grammar reads words as expressions. -/
def ReadsWords (g : Grammar) : Prop :=
  ∀ {w s s' : List Char}, IsValueWord w → Begins s w s' → Closes .never s' →
    Reads (g.expression .inner) s (·.value = true) s'

/-- What stands between the quotes of the literal that writes a text. -/
def literalText (t : Text) : Text :=
  Text.ofChars (((Json.renderString true t).toCharsD.drop 1).take
    ((Json.renderString true t).toCharsD.length - 2))

theorem reads_literal {name : Text} (h : front s = (Json.renderString true name).toCharsD ++ t) :
    Reads string s (·.source = literalText name) t := by
  have read := reads_string (s := s) (n := (Json.renderString true name).toCharsD.length)
    (by rw [h]; exact string?_renderString name t)
  rwa [h, List.drop_left, List.take_left] at read

theorem closes_brace {s : List Char} : Closes .never (' ' :: '\x7d' :: s) :=
  closes_never (c := '\x7d') (by decide) (front_space_solid (by decide))
    (.of_head (by decide))

theorem reads_firstEntry (words : ReadsWords g) (closes : Closes .never s) :
    Reads (objectEntry g) (' ' :: ("__proto__".toList ++ ':' :: ' ' :: ("null".toList ++ s)))
      (·.1 = true) s := by
  have name : Begins (' ' :: ("__proto__".toList ++ ':' :: ' ' :: ("null".toList ++ s)))
      "__proto__".toList (':' :: ' ' :: ("null".toList ++ s)) :=
    (IsWord.begins_append (by decide) (.of_head (by decide))).space
  have value : Begins (' ' :: ("null".toList ++ s)) "null".toList s :=
    (IsWord.begins_append (by decide) closes.word).space
  refine reads_objectEntry ?_ (fun m mem => ?_) ?_ (.left ?_)
    (words (.constant (.inl rfl)) value closes)
  · exact fails_mark_of_word name "..." ⟨'.', rfl, rfl⟩
  · refine fails_keyword name ?_
    revert m
    decide
  · exact fails_mark_of_word name "*" ⟨'*', rfl, rfl⟩
  · exact (reads_word name).bind fun _ _ => .pure trivial

theorem reads_entry (words : ReadsWords g) {entry : Text × List Char} (value : IsValueWord entry.2)
    (closes : Closes .never s) :
    Reads (objectEntry g) (' ' :: entryText entry ++ s) (·.1 = true) s := by
  have eq : ' ' :: entryText entry ++ s = ' ' :: ((Json.renderString true entry.1).toCharsD ++
      ':' :: ' ' :: (entry.2 ++ s)) := by
    simp [entryText]
  have quote : front (' ' :: ((Json.renderString true entry.1).toCharsD ++
      ':' :: ' ' :: (entry.2 ++ s))) = (Json.renderString true entry.1).toCharsD ++
        ':' :: ' ' :: (entry.2 ++ s) :=
    front_space_solid (by decide)
  have noWord : NoWord (' ' :: ((Json.renderString true entry.1).toCharsD ++
      ':' :: ' ' :: (entry.2 ++ s))) := by
    rw [NoWord, quote]
    rfl
  have begins : Begins (' ' :: (entry.2 ++ s)) entry.2 s :=
    (value.word.begins_append closes.word).space
  rw [eq]
  refine reads_objectEntry ?_ (fun m mem => fails_keyword_of_noWord noWord) ?_ ?_
    (words value begins closes)
  · exact fails_mark (by rw [quote]; rfl)
  · exact fails_mark (by rw [quote]; rfl)
  · refine .right (fails_word noWord).bind (.right (fails_mark (by rw [quote]; rfl)).bind ?_)
    exact .left ((reads_literal quote).bind fun _ _ => .pure trivial)

theorem reads_objectShape (words : ReadsWords g) {entries : List (Text × List Char)}
    (values : ∀ entry ∈ entries, IsValueWord entry.2) :
    Reads (objectShape g) (objectChars entries ++ s) (·.value = true) s := by
  have eq : objectChars entries ++ s = '\x7b' :: ' ' :: ("__proto__".toList ++
      ':' :: ' ' :: ("null".toList ++ (behindCommas entryText entries ++ ' ' :: '\x7d' :: s))) := by
    unfold objectChars
    simp only [List.cons_append, List.append_assoc, List.nil_append]
  have follows : Closes .never (behindCommas entryText entries ++ ' ' :: '\x7d' :: s) := by
    cases entries with
    | nil => exact closes_brace
    | cons entry rest => exact closes_comma
  rw [eq]
  refine (passes_mark (front_solid (by decide))).bind fun _ _ => ?_
  refine (reads_sparseList (P := (·.1 = true)) (B := Closes .never)
    (reads_firstEntry words follows) (fun entry mem t ht => reads_entry words (values entry mem) ht)
    (fun t => closes_comma) closes_brace ?_).bind fun found all => ?_
  · exact fails_mark rfl
  · refine (passes_mark (t := s) ?_).bind fun _ _ => .pure ?_
    · exact front_space_solid (by decide)
    · exact List.all_eq_true.mpr all

/-- An expression that is an object. -/
theorem reads_expression_object (words : ReadsWords g) {entries : List (Text × List Char)}
    (values : ∀ entry ∈ entries, IsValueWord entry.2) (closes : Closes .never s) :
    Reads (expressionBody g .inner) (objectChars entries ++ s) (·.value = true) s := by
  have brace : front (objectChars entries ++ s) = objectChars entries ++ s :=
    front_solid (by decide)
  have operand : Reads (operand g .inner) (objectChars entries ++ s) (·.value = true) s := by
    refine (passes_beginOperand ?_).bind fun _ _ => ?_
    · rw [brace]
      rfl
    · rw [brace]
      refine reads_look.bind ?_
      rintro _ rfl
      rw [brace]
      exact reads_objectShape words values
  refine operand.bind fun shape value => ?_
  refine (Repeats.stop (P := (·.value = true)) (fails_append closes) value).iterate.bind ?_
  exact fun shape value => .right (fails_operation closes) (.pure value)

/-- An object that cannot be changed, as the linker writes it. -/
def frozenChars (entries : List (Text × List Char)) : List Char :=
  "Object".toList ++ '.' :: ("freeze".toList ++ '(' :: (objectChars entries ++ [')']))

theorem passes_arguments_object {entries : List (Text × List Char)}
    (object : Reads (g.expression .inner) (objectChars entries ++ ')' :: s) (·.value = true)
      (')' :: s)) :
    Passes (arguments g) ('(' :: (objectChars entries ++ ')' :: s)) s := by
  refine (passes_mark (front_solid (by decide))).bind fun _ _ => ?_
  have argument : Passes (do
      skipOptional (mark "...")
      g.value) (objectChars entries ++ ')' :: s) (')' :: s) := by
    refine (fails_mark rfl).skipOptional.bind fun _ _ => ?_
    exact object.bind fun shape value => (passes_guard value).bind fun _ _ => .pure trivial
  refine (reads_sparseList (f := entryText) (l := []) (B := fun _ => True) argument
    (List.forall_mem_nil _) (fun _ => trivial) trivial (fails_mark rfl)).bind fun _ _ => ?_
  exact (passes_mark (t := s) (front_solid (by decide))).bind fun _ _ => .pure trivial

/-- An expression that is an object which cannot be changed. -/
theorem reads_expression_frozen {entries : List (Text × List Char)}
    (object : ∀ s, Closes .never s → Reads (g.expression .inner) (objectChars entries ++ s)
      (·.value = true) s) (closes : Closes place.ending s) :
    Reads (expressionBody g place) (' ' :: (frozenChars entries ++ s)) (·.value = true) s := by
  have eq : frozenChars entries ++ s = "Object".toList ++ '.' :: ("freeze".toList ++
      '(' :: (objectChars entries ++ ')' :: s)) := by
    unfold frozenChars
    simp only [List.cons_append, List.append_assoc, List.nil_append]
  have begins : Begins (' ' :: ("Object".toList ++ '.' :: ("freeze".toList ++
      '(' :: (objectChars entries ++ ')' :: s)))) "Object".toList
        ('.' :: ("freeze".toList ++ '(' :: (objectChars entries ++ ')' :: s))) :=
    (IsWord.begins_append (by decide) (.of_head (by decide))).space
  have property : Begins ("freeze".toList ++ '(' :: (objectChars entries ++ ')' :: s))
      "freeze".toList ('(' :: (objectChars entries ++ ')' :: s)) :=
    IsWord.begins_append (by decide) (.of_head (by decide))
  have object := object (')' :: s)
    (closes_never (c := ')') (by decide) (front_solid (by decide)) (.of_head (by decide)))
  rw [eq]
  refine (reads_operand (.name (by decide)) begins rfl).bind fun shape value => ?_
  refine (Repeats.iterate (P := (·.value = true)) (.next (Q := (·.value = true))
    (t := '(' :: (objectChars entries ++ ')' :: s)) ?_ ?_ fun shape value =>
      .next (Q := (·.value = true)) (t := s) ?_ ?_ fun shape value =>
        .stop (fails_append closes) value)).bind ?_
  · refine (passes_guard value).bind fun _ _ => ?_
    refine (reads_ends (by decide) (by decide)).bind ?_
    rintro _ rfl
    refine (passes_guard rfl).bind fun _ _ => ?_
    refine reads_look.bind ?_
    rintro _ rfl
    rw [front_solid (by decide)]
    refine (passes_mark (front_solid (by decide))).bind fun _ _ => ?_
    have name : Passes (privateName <|> (do let _ ← word))
        ("freeze".toList ++ '(' :: (objectChars entries ++ ')' :: s))
        ('(' :: (objectChars entries ++ ')' :: s)) :=
      .right (fails_mark_of_word property "#" ⟨'#', rfl, rfl⟩).bind
        ((reads_word property).bind fun _ _ => .pure trivial)
    exact name.bind fun _ _ => .pure rfl
  · simp
  · refine (passes_guard value).bind fun _ _ => ?_
    refine (reads_ends (by decide) (by decide)).bind ?_
    rintro _ rfl
    refine (passes_guard rfl).bind fun _ _ => ?_
    refine reads_look.bind ?_
    rintro _ rfl
    rw [front_solid (by decide)]
    exact (passes_arguments_object object).bind fun _ _ => .pure rfl
  · simp
    omega
  · exact fun shape value => .right (fails_operation closes) (.pure value)

/-! ## Declarations -/

/-- The declaration of a name. -/
def declareChars (name value : List Char) : List Char :=
  "const".toList ++ ' ' :: (name ++ ' ' :: '=' :: ' ' :: (value ++ [';']))

theorem declareChars_append (name v s : List Char) : declareChars name v ++ s =
    "const".toList ++ ' ' :: (name ++ ' ' :: '=' :: ' ' :: (v ++ ';' :: s)) := by
  unfold declareChars
  simp only [List.cons_append, List.append_assoc, List.nil_append]

/-- A grammar reads a text as a value at the end of a statement. -/
def ReadsValue (g : Grammar) (value : List Char) : Prop :=
  ∀ s, Passes (g.valueAt { ending := .value }) (' ' :: (value ++ ';' :: s)) (';' :: s)

theorem closes_semicolon {s : List Char} {ending : Ending} : Closes ending (';' :: s) where
  begins := ⟨';', by decide, s, front_solid (by decide)⟩
  ends := reads_ends (by decide) (by decide)
  word := .of_head (by decide)

theorem reads_bindingPattern (h : Begins s w s') : Passes (bindingPattern g) s s' := by
  refine reads_look.bind ?_
  rintro _ rfl
  have name : Passes (do return Pattern.name (← name)) s s' :=
    (reads_name h).bind fun _ _ => .pure trivial
  rw [h.eq]
  obtain ⟨c, hc, -⟩ := h.word.begins
  cases w with
  | nil => cases hc
  | cons c rest =>
      have part := h.word.parts c List.mem_cons_self
      rw [List.cons_append]
      generalize rest ++ s' = more
      split
      · next h =>
          cases h
          cases part
      · next h =>
          cases h
          cases part
      · exact name

theorem begins_declareChars (name v s : List Char) :
    Begins (declareChars name v ++ s) "const".toList
      (' ' :: (name ++ ' ' :: '=' :: ' ' :: (v ++ ';' :: s))) := by
  rw [declareChars_append]
  exact IsWord.begins_append (by decide) (.of_head (by decide))

theorem passes_variableDeclaration {v : List Char} (name : IsWord w) (value : ReadsValue g v) :
    Passes (variableDeclaration g) (declareChars w v ++ s) s := by
  have first := begins_declareChars w v s
  have second : Begins (' ' :: (w ++ ' ' :: '=' :: ' ' :: (v ++ ';' :: s))) w
      (' ' :: '=' :: ' ' :: (v ++ ';' :: s)) :=
    (name.begins_append (.of_head (by decide))).space
  have declarator : Passes (declarator g false) (' ' :: (w ++ ' ' :: '=' :: ' ' :: (v ++ ';' :: s)))
      (';' :: s) := by
    refine (reads_bindingPattern second).bind fun _ _ => ?_
    refine (Reads.right (fails_mark rfl).bind
      (Fails.skipOptional (fails_mark rfl).bind)).bind fun _ _ => ?_
    have given : Passes (do mark "="; g.valueAt { ending := .value })
        (' ' :: '=' :: ' ' :: (v ++ ';' :: s)) (';' :: s) :=
      (passes_mark (front_space_solid (by decide))).bind fun _ _ => value s
    exact given.optional.bind fun _ _ => .pure trivial
  have declarators : Passes (declarators g false) (declareChars w v ++ s) (';' :: s) := by
    refine (Reads.right (fails_keyword first (by decide)) (.right (fails_keyword first (by decide))
      (passes_keyword first))).bind fun _ _ => ?_
    refine Reads.bind (P := fun _ => True) ?_ fun _ _ => .pure trivial
    refine declarator.bind fun _ _ => ?_
    exact (reads_many_none (fails_mark rfl).bind).bind fun _ _ => .pure trivial
  exact declarators.bind fun _ _ => passes_semicolon.bind fun _ _ => .pure trivial

theorem passes_declaration {v : List Char} (name : IsName w) (value : ReadsValue g v) :
    Passes (declarationBody g) (declareChars w v ++ s) s := by
  have first := begins_declareChars w v s
  have second : Begins (' ' :: (w ++ ' ' :: '=' :: ' ' :: (v ++ ';' :: s))) w
      (' ' :: '=' :: ' ' :: (v ++ ';' :: s)) :=
    (name.word.begins_append (.of_head (by decide))).space
  refine (reads_lookWord first).bind ?_
  rintro _ rfl
  have noEnum : Fails (enumDeclaration g) (declareChars w v ++ s) := by
    refine (passes_keyword first).skipOptional.bind_fails fun _ _ => ?_
    exact (fails_keyword second (name.free "enum" (by decide))).bind
  exact .right noEnum (passes_variableDeclaration name.word value)

theorem reads_importAhead (h : Begins s w s') (ne : w ≠ "import".toList) :
    Reads importAhead s (· = false) s :=
  (fails_keyword h ne).bind.test

theorem reads_declarationAhead_const (h : Begins s "const".toList s') :
    Reads declarationAhead s (· = true) s := by
  refine Reads.test (P := fun _ => True) (t := s') ?_
  refine (reads_word h).bind ?_
  rintro _ rfl
  exact .pure trivial

theorem passes_statement_const (ends : EndsWord t)
    (declaration : Passes g.declaration ("const".toList ++ t) s') :
    Passes (statementBody g) ("const".toList ++ t) s' := by
  have begins : Begins ("const".toList ++ t) "const".toList t :=
    IsWord.begins_append (by decide) ends
  refine (passes_beginOperand (by rw [begins.eq]; rfl)).bind fun _ _ => ?_
  rw [begins.eq]
  refine reads_look.bind ?_
  rintro _ rfl
  rw [begins.eq]
  refine (reads_lookWord begins).bind ?_
  rintro _ rfl
  refine (reads_importAhead begins (by decide)).bind ?_
  rintro _ rfl
  refine Reads.bind (P := (· = true)) (t := "const".toList ++ t)
    (reads_declarationAhead_const begins) ?_
  rintro _ rfl
  exact declaration.bind fun _ _ => .pure trivial

theorem passes_item_statement (begins : Begins s w t) (solid : front s = s)
    (importing : w ≠ "import".toList) (exporting : w ≠ "export".toList)
    (statement : Passes g.statement s s') : Passes (item g) s s' := by
  refine (passes_beginOperand ?_).bind fun _ _ => ?_
  · rw [begins.eq]
    exact markupComment?_word begins.word
  rw [solid]
  refine (reads_importAhead begins importing).bind ?_
  rintro _ rfl
  refine (reads_aheadWord "export" begins).bind ?_
  rintro _ rfl
  rw [if_neg (by simpa using exporting)]
  refine (reads_ahead "@").bind ?_
  rintro _ rfl
  rw [isPrefixOf_eq_false_of_word begins "@" ⟨'@', rfl, rfl⟩]
  exact statement.bind fun _ _ => .pure trivial

end Playground.Source
