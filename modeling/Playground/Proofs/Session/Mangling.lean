import Mathlib.Data.List.Forall2
import Playground.Proofs.Session.Decoding

/-!
# What may happen to a share link on its way

Mail programs and address bars change links. They write some characters as percent
escapes, pad the token or put blanks around it, and some know the other alphabet of
base64 only. All of this may come together, an escape of a sign of padding too. The
session is read nevertheless.

The repairs depend on their order. Escapes are undone first, so that what is left
stands for itself. The blanks are then at the ends, and between them there is none. The
two alphabets need no repair of their own, since a digit has one value in both. And
padding is filled up, so it does not matter how much of it is there already.
-/

namespace Playground

namespace Percent

/-! ## Escapes -/

/-- The hexadecimal digit for a number, in either case. -/
def IsHexDigit (n : Nat) (c : CodePoint) : Prop :=
  (text "0123456789abcdef")[n]? = some c ∨ (text "0123456789ABCDEF")[n]? = some c

/-- What a character of ASCII may be written as: itself, or the percent sign and the two digits of its
number. -/
def IsWritten (c : CodePoint) : Text → Prop
  | [d] => d = c
  | [p, a, b] => p = sign ∧ IsHexDigit (c.val / 16) a ∧ IsHexDigit (c.val % 16) b
  | _ => False

/-- A text of ASCII with some of its characters percent-encoded. -/
inductive Written : Text → Text → Prop where
  | nil : Written [] []
  | cons {c : CodePoint} {e t v : Text} (first : IsWritten c e) (later : Written t v) :
      Written (c :: t) (e ++ v)

instance (n : Nat) : DecidablePred (IsHexDigit n) := fun _ => inferInstanceAs (Decidable (_ ∨ _))

instance (c : CodePoint) : DecidablePred (IsWritten c)
  | [] => inferInstanceAs (Decidable False)
  | [d] => inferInstanceAs (Decidable (d = c))
  | [_, _] => inferInstanceAs (Decidable False)
  | [_, _, _] => inferInstanceAs (Decidable (_ ∧ _ ∧ _))
  | _ :: _ :: _ :: _ :: _ => inferInstanceAs (Decidable False)

variable {c : CodePoint} {t e v : Text}

theorem hexValue?_of_isHexDigit {n : Nat} (h : IsHexDigit n c) : hexValue? c = some n := by
  have all : ∀ n < 16, ∀ d, (text "0123456789abcdef")[n]? = some d ∨
      (text "0123456789ABCDEF")[n]? = some d → hexValue? d = some n := by
    have read : ∀ n < 16, ∀ t ∈ [text "0123456789abcdef", text "0123456789ABCDEF"],
        t[n]?.bind hexValue? = some n := by decide
    rintro n small d (digit | digit)
    · simpa [digit] using read n small _ List.mem_cons_self
    · simpa [digit] using read n small _ (List.mem_cons_of_mem _ List.mem_cons_self)
  refine all n ?_ c h
  rcases h with digit | digit <;> exact (List.getElem?_eq_some_iff.mp digit).1

theorem lt_of_isHexDigit {n : Nat} (h : IsHexDigit n c) : c.val < 128 := by
  have := hexValue?_of_isHexDigit h
  unfold hexValue? at this
  simp only [] at this
  split at this
  · omega
  split at this
  · omega
  split at this
  · omega
  · cases this

theorem ascii_of_isWritten (ascii : c.val < 128) (h : IsWritten c e) : ∀ d ∈ e, d.val < 128 := by
  unfold IsWritten at h
  split at h
  · subst h
    simpa using ascii
  · obtain ⟨rfl, high, low⟩ := h
    simp only [List.forall_mem_cons]
    exact ⟨by decide, lt_of_isHexDigit high, lt_of_isHexDigit low, List.forall_mem_nil _⟩
  · exact h.elim

/-- What a character is written as gives its octet, whatever follows. -/
theorem octets_of_isWritten (plain : c ≠ sign) (h : IsWritten c e) (rest : Text) :
    octets 0 (e ++ rest) = .ofNat c.val :: octets 0 rest := by
  unfold IsWritten at h
  split at h
  · subst h
    rw [List.singleton_append, octets, escape?_of_ne rest plain]
  · next p a b =>
      obtain ⟨rfl, high, low⟩ := h
      have escape : escape? (sign :: a :: b :: rest) = some (.ofNat c.val, rest) := by
        unfold escape?
        simp only [sign, if_true, hexValue?_of_isHexDigit high, hexValue?_of_isHexDigit low,
          Nat.div_add_mod']
      show octets 0 (sign :: a :: b :: rest) = _
      rw [octets, escape]
      rfl
  · exact h.elim

namespace Written

theorem refl (t : Text) : Written t t := by
  induction t with
  | nil => exact .nil
  | cons c t ih => exact .cons (e := [c]) rfl ih

theorem append {t' v' : Text} (h : Written t v) (h' : Written t' v') : Written (t ++ t') (v ++ v') := by
  induction h with
  | nil => exact h'
  | cons first _ ih =>
      rw [List.append_assoc]
      exact .cons first ih

theorem single (h : IsWritten c e) : Written [c] e := by
  have := cons h nil
  rwa [List.append_nil] at this

theorem ascii (h : Written t v) (ascii : ∀ c ∈ t, c.val < 128) : ∀ d ∈ v, d.val < 128 := by
  induction h with
  | nil => exact List.forall_mem_nil _
  | cons first _ ih =>
      obtain ⟨ascii, later⟩ := List.forall_mem_cons.mp ascii
      exact List.forall_mem_append.mpr ⟨ascii_of_isWritten ascii first, ih later⟩

theorem octets_eq (h : Written t v) (plain : sign ∉ t) :
    octets 0 v = t.map fun c => .ofNat c.val := by
  induction h with
  | nil => rfl
  | cons first _ ih =>
      rw [octets_of_isWritten (List.ne_of_not_mem_cons plain).symm first,
        ih (List.not_mem_of_not_mem_cons plain), List.map_cons]

end Written

theorem decodeFrom_of_ascii {run : Text} (ascii : ∀ c ∈ t, c.val < 128) :
    decodeFrom run t = Utf8.decodeLossy (octets 0 (run.reverse ++ t)) := by
  induction t generalizing run with
  | nil => rw [decodeFrom, List.append_nil]
  | cons c t ih =>
      rw [decodeFrom, if_pos (ascii c List.mem_cons_self),
        ih fun d mem => ascii d (List.mem_cons_of_mem _ mem), List.reverse_cons,
        List.append_assoc, List.singleton_append]

/-- Escapes are undone, whichever characters they stand for. -/
theorem decode_of_written (h : Written t v) (ascii : ∀ c ∈ t, c.val < 128) (plain : sign ∉ t) :
    decode v = t := by
  unfold decode
  rw [decodeFrom_of_ascii (h.ascii ascii), List.reverse_nil, List.nil_append, h.octets_eq plain,
    decodeLossy_ascii ascii]

end Percent

/-! ## Blanks -/

/-- The white space of ASCII. -/
def CodePoint.isAsciiBlank (c : CodePoint) : Bool :=
  c.isBlank && c.val < 128

namespace Text

theorem dropWhile_isBlank {before t : Text} (blank : ∀ c ∈ before, c.isBlank = true)
    (solid : ∀ c ∈ t.head?, c.isBlank = false) :
    (before ++ t).dropWhile CodePoint.isBlank = t := by
  rw [List.dropWhile_append_of_pos blank]
  cases t with
  | nil => rfl
  | cons c t => exact List.dropWhile_cons_of_neg (by simpa using solid c rfl)

/-- Blanks around a text without blanks are trimmed. -/
theorem trim_append {before t after : Text} (blank : ∀ c ∈ before, c.isBlank = true)
    (blank' : ∀ c ∈ after, c.isBlank = true) (solid : ∀ c ∈ t, c.isBlank = false) :
    (before ++ t ++ after).trim = t := by
  have ends : ∀ c ∈ t.reverse.head?, c.isBlank = false := fun c mem =>
    solid c (List.mem_reverse.mp (List.mem_of_mem_head? mem))
  have fromBehind : trimEnd (t ++ after) = t := by
    unfold trimEnd
    rw [List.reverse_append,
      dropWhile_isBlank (fun c mem => blank' c (List.mem_reverse.mp mem)) ends,
      List.reverse_reverse]
  cases t with
  | nil =>
      have all : ∀ c ∈ before ++ [] ++ after, c.isBlank = true := by
        simpa [or_imp, forall_and] using And.intro blank blank'
      have gone := dropWhile_isBlank all (t := []) (by simp)
      rw [List.append_nil] at gone
      unfold trim trimStart
      rw [gone]
      rfl
  | cons c t =>
      unfold trim trimStart
      rw [List.append_assoc, dropWhile_isBlank blank fun d mem => solid d ?_, fromBehind]
      exact Option.mem_some.mp mem ▸ List.mem_cons_self

end Text

namespace Base64

/-! ## Alphabets and padding -/

/-- A digit of the alphabet for links, and the one that may stand in its place. -/
def IsRespelled (c d : CodePoint) : Prop :=
  d = c ∨ (c = CodePoint.ofChar '-' ∧ d = CodePoint.ofChar '+') ∨
    (c = CodePoint.ofChar '_' ∧ d = CodePoint.ofChar '/')

instance : DecidableRel IsRespelled := fun _ _ => inferInstanceAs (Decidable (_ ∨ _ ∨ _))

variable {t digits : Text}

theorem value?_of_isRespelled {c d : CodePoint} (h : IsRespelled c d) : value? d = value? c := by
  rcases h with rfl | ⟨rfl, rfl⟩ | ⟨rfl, rfl⟩
  · rfl
  · rfl
  · rfl

theorem respelled_self (t : Text) : List.Forall₂ IsRespelled t t :=
  List.forall₂_same.mpr fun _ _ => .inl rfl

theorem mapM_value?_of_respelled (h : List.Forall₂ IsRespelled t digits) :
    digits.mapM value? = t.mapM value? := by
  induction h with
  | nil => rfl
  | cons first _ ih => rw [List.mapM_cons, List.mapM_cons, value?_of_isRespelled first, ih]

/-- What a digit may be replaced by has a number of ASCII, is no percent sign, no sign of padding and
no blank. -/
structure IsDigit (c : CodePoint) : Prop where
  ascii : c.val < 128
  unescaped : c ≠ Percent.sign
  unpadded : c ≠ pad
  solid : c.isBlank = false

theorem isDigit_of_isLinkDigit {c : CodePoint} (h : c.isLinkDigit = true) : IsDigit c where
  ascii := by
    simp only [CodePoint.isLinkDigit, Bool.or_eq_true, Bool.and_eq_true, decide_eq_true_eq,
      beq_iff_eq] at h
    omega
  unescaped := by
    rintro rfl
    cases h
  unpadded := by
    rintro rfl
    cases h
  solid := CodePoint.not_isBlank_of_isLinkDigit h

theorem isDigit_of_isRespelled {c d : CodePoint} (h : IsRespelled c d) (digit : IsDigit c) :
    IsDigit d := by
  rcases h with rfl | ⟨-, rfl⟩ | ⟨-, rfl⟩
  · exact digit
  · exact ⟨by decide, by decide, by decide, by decide⟩
  · exact ⟨by decide, by decide, by decide, by decide⟩

theorem isDigit_of_respelled (h : List.Forall₂ IsRespelled t digits) (all : ∀ c ∈ t, IsDigit c) :
    ∀ d ∈ digits, IsDigit d := by
  induction h with
  | nil => exact List.forall_mem_nil _
  | cons first _ ih =>
      obtain ⟨digit, later⟩ := List.forall_mem_cons.mp all
      exact List.forall_mem_cons.mpr ⟨isDigit_of_isRespelled first digit, ih later⟩

/-- The other alphabet and padding make no difference. -/
theorem decode_respelled {pads : Nat} (h : List.Forall₂ IsRespelled t digits)
    (all : ∀ c ∈ t, IsDigit c) (room : pads ≤ (4 - t.length % 4) % 4) :
    decode (digits ++ List.replicate pads pad) = decode t := by
  have free {t : Text} (all : ∀ c ∈ t, IsDigit c) : pad ∉ t := fun mem =>
    (all pad mem).unpadded rfl
  have plain := decode_append_pad (free all) (Nat.zero_le _)
  rw [List.replicate_zero, List.append_nil] at plain
  rw [decode_append_pad (free (isDigit_of_respelled h all)) (h.length_eq ▸ room),
    mapM_value?_of_respelled h, plain]

end Base64

namespace Fragment

/-! ## Links -/

/-- What a token may have become: some of its digits are of the other alphabet, some of its padding is
there, blanks stand around it, and any of all these characters are percent escapes. -/
inductive Mangled (token v : Text) : Prop where
  | intro {before digits after : Text} {pads : Nat}
      (respelled : List.Forall₂ Base64.IsRespelled token digits)
      (padded : pads ≤ (4 - token.length % 4) % 4)
      (before_blank : ∀ c ∈ before, c.isAsciiBlank = true)
      (after_blank : ∀ c ∈ after, c.isAsciiBlank = true)
      (escaped : Percent.Written
        (before ++ (digits ++ List.replicate pads Base64.pad) ++ after) v)

/-- Undoing escapes and trimming leave the digits and the padding. -/
theorem Mangled.repaired {token v : Text} (h : Mangled token v)
    (digits : ∀ c ∈ token, c.isLinkDigit = true) :
    Base64.decode (Percent.decode v).trim = Base64.decode token := by
  obtain @⟨before, digits', after, pads, respelled, padded, before_blank, after_blank, escaped⟩ := h
  have all c (mem : c ∈ token) := Base64.isDigit_of_isLinkDigit (digits c mem)
  have all' := Base64.isDigit_of_respelled respelled all
  have ofBlank {c : CodePoint} (h : c.isAsciiBlank = true) :
      c.isBlank = true ∧ c.val < 128 ∧ c ≠ Percent.sign := by
    obtain ⟨blank, ascii⟩ := Bool.and_eq_true_iff.mp h
    refine ⟨blank, of_decide_eq_true ascii, ?_⟩
    rintro rfl
    cases blank
  have inside : ∀ c ∈ digits' ++ List.replicate pads Base64.pad,
      c.isBlank = false ∧ c.val < 128 ∧ c ≠ Percent.sign := by
    intro c mem
    rcases List.mem_append.mp mem with mem | mem
    · exact ⟨(all' c mem).solid, (all' c mem).ascii, (all' c mem).unescaped⟩
    · rw [List.eq_of_mem_replicate mem]
      decide
  have every : ∀ c ∈ before ++ (digits' ++ List.replicate pads Base64.pad) ++ after,
      c.val < 128 ∧ c ≠ Percent.sign := by
    intro c mem
    rcases List.mem_append.mp mem with mem | mem
    · rcases List.mem_append.mp mem with mem | mem
      · exact (ofBlank (before_blank c mem)).2
      · exact (inside c mem).2
    · exact (ofBlank (after_blank c mem)).2
  rw [Percent.decode_of_written escaped (fun c mem => (every c mem).1)
      (fun mem => (every _ mem).2 rfl),
    Text.trim_append (fun c mem => (ofBlank (before_blank c mem)).1)
      (fun c mem => (ofBlank (after_blank c mem)).1) fun c mem => (inside c mem).1,
    Base64.decode_respelled respelled all padded]

theorem session?_of_mangled {default s : Session} {v : Text} (h : Mangled (token s) v) :
    session? default v = some s := by
  have plain : (Percent.decode (token s)).trim = token s :=
    trim_decode_of_isLinkDigit fun c => isLinkDigit_of_mem_token
  have read := session?_token default s
  unfold session? at read ⊢
  rw [h.repaired fun c => isLinkDigit_of_mem_token]
  rwa [plain] at read

/-- A session is read from its fragment whatever of the kind has happened to the token, whatever leads
the fragment and whatever the default session is. -/
theorem survives_mangling {lead written v : Text} (default : Session) {s : Session}
    (fragment : encode lead s = lead ++ written) (mangled : Mangled written v) :
    decode lead default (lead ++ v) = s := by
  obtain rfl : token s = written := List.append_cancel_left fragment
  rw [decode_eq_getD, Text.after?_append, Option.bind_some, session?_of_mangled mangled]
  rfl

/-- A line feed stands in front of the token, a space and a tabulator behind it. A letter, the slash, the
padding and the space are escapes, and the plus sign is none. -/
theorem survives_mangling_all_over :
    let s : Session := { source := text "a~?c~>" }
    let rest := text "IiwibWluaWZ5Ijoibm9uZSIsImVudHJ5U3RyYXRlZ3kiOiJzbWFydCIsInRyYW5zcGlsZSI6ZmFsc2UsInZpZXciOiJtb2R1bGVzIn0"
    let written := text "eyJjb2RlIjoiYX4_Y34-" ++ rest
    let v := text "\n" ++ (text "%65" ++ text "yJjb2RlIjoiYX4" ++ text "%2F" ++ text "Y34+" ++
      rest ++ text "%3d") ++ (text "%20" ++ text "\t")
    encode (text "#") s = text "#" ++ written ∧ Mangled written v ∧
      decode (text "#") { source := [], transpile := true } (text "#" ++ v) = s := by
  intro s rest written v
  have fragment : encode (text "#") s = text "#" ++ written := by decide +kernel
  have front : Percent.Written (text "e" ++ text "yJjb2RlIjoiYX4" ++ text "/" ++ text "Y34+")
      (text "%65" ++ text "yJjb2RlIjoiYX4" ++ text "%2F" ++ text "Y34+") :=
    (((Percent.Written.single (by decide)).append (.refl _)).append (.single (by decide))).append
      (.refl _)
  have respelled : List.Forall₂ Base64.IsRespelled written
      (text "e" ++ text "yJjb2RlIjoiYX4" ++ text "/" ++ text "Y34+" ++ rest) :=
    List.rel_append (by decide) (Base64.respelled_self rest)
  have padding : Percent.Written (List.replicate 1 Base64.pad) (text "%3d") := .single (by decide)
  have behind : Percent.Written (text " " ++ text "\t") (text "%20" ++ text "\t") :=
    (Percent.Written.single (by decide)).append (.refl _)
  have mangled : Mangled written v := .intro respelled (by decide +kernel) (by decide) (by decide)
    (((Percent.Written.refl (text "\n")).append ((front.append (.refl rest)).append padding)).append
      behind)
  exact ⟨fragment, mangled, survives_mangling _ fragment mangled⟩

end Fragment

end Playground
