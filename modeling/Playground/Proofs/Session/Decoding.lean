import Playground.Proofs.Session.ShareLink
import Playground.Proofs.Text.Bits
import Playground.Proofs.Text.Octets

/-!
# A fragment is read as a whole or not at all

A fragment that anyone may have made is read in five stages, and each of them may fail.
If none does, every field of the session is known: it is in the object, or it is the
one of the default session. If one does, the session is the default one. So there is
nothing in between.

The stages are told without their readers where that can be done. The digits of base64
spell bits, and UTF-8 is what is written for a text. Percent escapes and blanks are
undone before anything is looked at, and JSON is what the reader of JSON takes.
-/

namespace Playground

namespace Session

variable {default s : Session} {fields : List (Text × Json)}

/-! ## Fields -/

/-- The value of a field, or another value where the field is missing. -/
def fieldD (fields : List (Text × Json)) (name : String) (missing : Json) : Json :=
  (Json.field? fields (text name)).getD missing

/-- An object describes a session: all its fields that are there have the values of the session, and
for those that are missing the default one has them. -/
structure Describes (default : Session) (fields : List (Text × Json)) (s : Session) : Prop where
  source : fieldD fields "code" (.str default.source) = .str s.source
  minify : fieldD fields "minify" (.str default.minify.name) = .str s.minify.name
  strategy : fieldD fields "entryStrategy" (.str default.strategy.name) = .str s.strategy.name
  transpile : fieldD fields "transpile" (.bool default.transpile) = .bool s.transpile
  view : fieldD fields "view" (.str default.view.name) = .str s.view.name

theorem sourceOf?_eq_some_iff {value : Json} {t : Text} :
    sourceOf? value = some t ↔ value = .str t := by
  cases value with
  | str => exact ⟨fun h => congrArg Json.str (Option.some.inj h), fun h => by cases h; rfl⟩
  | null | bool | int | num | arr | obj => exact iff_of_false nofun nofun

theorem flagOf?_eq_some_iff {value : Json} {b : Bool} :
    flagOf? value = some b ↔ value = .bool b := by
  cases value with
  | bool => exact ⟨fun h => congrArg Json.bool (Option.some.inj h), fun h => by cases h; rfl⟩
  | null | str | int | num | arr | obj => exact iff_of_false nofun nofun

/-- A choice is made by its name and by nothing else. -/
theorem pick_eq_some_iff {α : Type} (choice : Choice) {name : α → Text} {all : List α}
    (named : ∀ a, pick choice name all (.str (name a)) = .ok a) {value : Json} {a : α} :
    (pick choice name all value).toOption = some a ↔ value = .str (name a) := by
  refine ⟨fun h => ?_, fun h => by rw [h, named]; rfl⟩
  unfold pick at h
  simp only [] at h
  split at h
  · next b found =>
      cases h
      split at found
      · have := List.find?_some found
        rw [← of_decide_eq_true this]
      · cases found
  · cases h

/-- A field is read if it is missing or if its value is one that is written. -/
theorem fieldOr?_eq_some_iff {α : Type} {read : Json → Option α} {write : α → Json}
    (inverse : ∀ value a, read value = some a ↔ value = write a) {name : String} {missing a : α} :
    fieldOr? fields name missing read = some a ↔ fieldD fields name (write missing) = write a := by
  unfold fieldOr? fieldD
  cases Json.field? fields (text name) with
  | none =>
      constructor
      · intro h
        rw [Option.some.inj h]
        rfl
      · intro h
        have kept : read (write missing) = some a := (inverse _ a).mpr h
        rwa [(inverse _ missing).mpr rfl] at kept
  | some value => exact inverse value a

/-- The session of an object is the one that it describes. -/
theorem ofJson?_eq_some_iff : ofJson? default (.obj fields) = some s ↔ Describes default fields s := by
  have source := @fieldOr?_eq_some_iff fields _ sourceOf? Json.str
    (fun _ _ => sourceOf?_eq_some_iff) "code" default.source s.source
  have transpile := @fieldOr?_eq_some_iff fields _ flagOf? Json.bool
    (fun _ _ => flagOf?_eq_some_iff) "transpile" default.transpile s.transpile
  have minify := @fieldOr?_eq_some_iff fields _ (fun v => (MinifyMode.ofJson v).toOption)
    (fun mode => .str mode.name) (fun _ _ => pick_eq_some_iff _ minify_ofJson_name)
    "minify" default.minify s.minify
  have strategy := @fieldOr?_eq_some_iff fields _ (fun v => (EntryStrategy.ofJson v).toOption)
    (fun strategy => .str strategy.name) (fun _ _ => pick_eq_some_iff _ strategy_ofJson_name)
    "entryStrategy" default.strategy s.strategy
  have view := @fieldOr?_eq_some_iff fields _ (fun v => (View.ofJson v).toOption)
    (fun view => .str view.name) (fun _ _ => pick_eq_some_iff _ view_ofJson_name)
    "view" default.view s.view
  unfold ofJson?
  simp only [Option.bind_eq_bind, Option.bind_eq_some_iff]
  constructor
  · rintro ⟨_, hSource, _, hTranspile, _, hMinify, _, hStrategy, _, hView, ⟨⟩⟩
    exact ⟨source.mp hSource, minify.mp hMinify, strategy.mp hStrategy, transpile.mp hTranspile,
      view.mp hView⟩
  · intro d
    exact ⟨_, source.mpr d.source, _, transpile.mpr d.transpile, _, minify.mpr d.minify, _,
      strategy.mpr d.strategy, _, view.mpr d.view, rfl⟩

end Session

namespace Fragment

variable {default s : Session} {lead token : Text} {value : Json} {fields : List (Text × Json)}

/-! ## Tokens -/

/-- A token carries a value: what is left of it when escapes and blanks are undone spells octets, and
these are written for a text that is JSON of the value. -/
def Carries (token : Text) (value : Json) : Prop :=
  ∃ document : Text, Base64.Spells (Percent.decode token).trim (Utf8.encodeLoose document) ∧
    Json.parse document = .ok value

theorem session?_eq_some_iff : session? default token = some s ↔
    ∃ value, Carries token value ∧ Session.ofJson? default value = some s := by
  have ok {ε α : Type} (result : Except ε α) (a : α) : result.toOption = some a ↔ result = .ok a := by
    cases result with
    | error => exact iff_of_false nofun nofun
    | ok => exact ⟨fun h => congrArg Except.ok (Option.some.inj h), fun h => by cases h; rfl⟩
  unfold session?
  simp only [Option.bind_eq_bind, Option.bind_eq_some_iff, ok, Utf8.decodeLoose_eq_ok_iff,
    Base64.decode_eq_some_iff]
  constructor
  · rintro ⟨_, spells, document, rfl, value, parsed, read⟩
    exact ⟨value, ⟨document, spells, parsed⟩, read⟩
  · rintro ⟨value, ⟨document, spells, parsed⟩, read⟩
    exact ⟨_, spells, document, rfl, value, parsed, read⟩

theorem session?_eq_some_iff_describes : session? default token = some s ↔
    ∃ fields, Carries token (.obj fields) ∧ Session.Describes default fields s := by
  rw [session?_eq_some_iff]
  constructor
  · rintro ⟨value, carries, read⟩
    cases value with
    | obj fields => exact ⟨fields, carries, Session.ofJson?_eq_some_iff.mp read⟩
    | null | bool | int | num | str | arr => cases read
  · rintro ⟨fields, carries, describes⟩
    exact ⟨_, carries, Session.ofJson?_eq_some_iff.mpr describes⟩

/-- An empty token carries nothing. -/
theorem session?_nil (default : Session) : session? default [] = none := rfl

/-- Whatever is written as JSON is carried by the token that is made of it. -/
theorem carries_encode {style : Json.Style} (separates : style.Separates)
    (legible : Json.Legible style.ascii Json.maxDepth value) :
    Carries (Base64.encode (Utf8.encodeLoose (Json.render style value))) value := by
  refine ⟨Json.render style value, ?_, Json.parse_render separates legible⟩
  rw [trim_decode_of_isLinkDigit fun c => Base64.isLinkDigit_of_mem_encode]
  exact Base64.decode_eq_some_iff.mp (Base64.decode_encode _)

/-! ## Fragments -/

/-- A fragment stands for a session: it is the lead and a token, which carries an object that describes
the session. -/
def StandsFor (lead : Text) (default : Session) (fragment? : Option Text) (s : Session) : Prop :=
  ∃ token fields, fragment? = some (lead ++ token) ∧ Carries token (.obj fields) ∧
    Session.Describes default fields s

theorem decode_eq_getD (lead : Text) (default : Session) (fragment : Text) :
    decode lead default fragment =
      ((Text.after? lead fragment).bind (session? default)).getD default := by
  unfold decode
  split
  · next none => rw [none]; rfl
  · next empty => rw [empty]; rfl
  · next token _ found => rw [found]; rfl

theorem standsFor_iff {fragment? : Option Text} : StandsFor lead default fragment? s ↔
    (Text.after? lead (fragment?.getD [])).bind (session? default) = some s := by
  simp only [Option.bind_eq_some_iff, Text.after?_eq_some_iff, session?_eq_some_iff_describes]
  constructor
  · rintro ⟨token, fields, rfl, carries, describes⟩
    exact ⟨token, rfl, fields, carries, describes⟩
  · rintro ⟨token, split, fields, carries, describes⟩
    cases fragment? with
    | some fragment => exact ⟨token, fields, congrArg some split, carries, describes⟩
    | none =>
        -- Where there is no fragment there is no token either, and an empty one carries nothing.
        obtain ⟨-, rfl⟩ := List.append_eq_nil_iff.mp split.symm
        have read := session?_eq_some_iff_describes.mpr ⟨fields, carries, describes⟩
        cases (session?_nil default).symm.trans read

/-- Every fragment is read, whatever it is. If it stands for a session it is read as that one, and if
not, or if there is none, as the default one. -/
theorem decode_eq_iff (lead : Text) (default : Session) (fragment? : Option Text) (s : Session) :
    decode lead default (fragment?.getD []) = s ↔ StandsFor lead default fragment? s ∨
      (¬ ∃ other, StandsFor lead default fragment? other) ∧ s = default := by
  simp only [standsFor_iff, decode_eq_getD]
  cases (Text.after? lead (fragment?.getD [])).bind (session? default) with
  | some read =>
      refine ⟨fun same => .inl (congrArg some same), ?_⟩
      rintro (same | ⟨nothing, -⟩)
      · exact Option.some.inj same
      · exact absurd ⟨read, rfl⟩ nothing
  | none =>
      refine ⟨fun same => .inr ⟨nofun, same.symm⟩, ?_⟩
      rintro (same | ⟨-, same⟩)
      · cases same
      · exact same.symm

end Fragment

end Playground
