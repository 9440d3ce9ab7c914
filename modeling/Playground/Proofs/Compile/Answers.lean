import Mathlib.Data.List.Forall2
import Playground.Compile.Failure
import Playground.Proofs.Json.Offences

/-!
# What a compiler's answer says

A result can be spelled in many ways. The numbers of a range may go by either of two
names, the highlights of a diagnostic by any of three, a list that is empty may be left
out or null, and fields that nobody asked for may stand anywhere. All spellings of a
result are read as that result, with everything in its order, and nothing else is.

What is no spelling of a result is refused as a whole. The refusal tells in how many
places the answer offends against the form that it should have.
-/

namespace Playground

open Json (Absent Checked Checks Counts Form Offends Stands)

/-! ## Spellings -/

section Fields

variable {α : Type} (fields : List (Text × Json)) (names : List String)

/-- A field is a text. -/
def Json.SpellsText (t : Text) : Prop :=
  Stands fields names (.str t)

/-- A field is something that can be taken for an integer. -/
def Json.SpellsInteger (n : Int) : Prop :=
  ∃ v, Stands fields names v ∧ Json.lenientInteger? v = some n

/-- A field is a list of spellings, in their order. One for an empty list may be missing or null. -/
def Json.SpellsList (Spells : α → Json → Prop) (as : List α) : Prop :=
  (as = [] ∧ (Absent fields names ∨ Stands fields names .null)) ∨
    ∃ items, Stands fields names (.arr items) ∧ List.Forall₂ Spells as items

end Fields

/-- A value spells a module. -/
def Artifact.Spelled (a : Artifact) (raw : Json) : Prop :=
  ∃ fields, raw = .obj fields ∧ Json.SpellsText fields ["path"] a.path ∧
    Json.SpellsText fields ["code"] a.code

/-- A value spells a range. -/
def Highlight.Spelled (h : Highlight) (raw : Json) : Prop :=
  ∃ fields, raw = .obj fields ∧
    (Json.SpellsInteger fields ["startLine", "start_line"] h.startLine ∧
      Json.SpellsInteger fields ["startCol", "start_col"] h.startCol) ∧
    Json.SpellsInteger fields ["endLine", "end_line"] h.endLine ∧
    Json.SpellsInteger fields ["endCol", "end_col"] h.endCol

/-- A value spells a diagnostic. -/
def Diagnostic.Spelled (d : Diagnostic) (raw : Json) : Prop :=
  ∃ fields, raw = .obj fields ∧ Json.SpellsText fields ["message"] d.message ∧
    Json.SpellsList fields ["highlights", "code_highlights", "codeHighlights"] Highlight.Spelled
      d.highlights

/-- A value spells a result. -/
def CompileResult.Spelled (r : CompileResult) (raw : Json) : Prop :=
  ∃ fields, raw = .obj fields ∧
    Json.SpellsList fields ["modules"] Artifact.Spelled r.modules ∧
    Json.SpellsList fields ["diagnostics"] Diagnostic.Spelled r.diagnostics

/-! ## Forms -/

/-- What a module has to be. -/
def Artifact.form : Form :=
  .record [(["path"], .text), (["code"], .text)]

/-- What a range has to be. -/
def Highlight.form : Form :=
  .record [(["startLine", "start_line"], .integer), (["startCol", "start_col"], .integer),
    (["endLine", "end_line"], .integer), (["endCol", "end_col"], .integer)]

/-- What a diagnostic has to be. -/
def Diagnostic.form : Form :=
  .record [(["message"], .text),
    (["highlights", "code_highlights", "codeHighlights"], .list Highlight.form)]

/-- What an answer has to be. -/
def CompileResult.form : Form :=
  .record [(["modules"], .list Artifact.form), (["diagnostics"], .list Diagnostic.form)]

/-! ## Readers and spellings -/

namespace Json

variable {α β : Type} {fields : List (Text × Json)} {names : List String}

theorem Checked.both_eq_ok_iff {a : Checked α} {b : Checked β} {x : α} {y : β} :
    Checked.both a b = .ok (x, y) ↔ a = .ok x ∧ b = .ok y := by
  cases a with
  | error => exact iff_of_false nofun nofun
  | ok =>
      cases b with
      | error => exact iff_of_false nofun nofun
      | ok => simp [Checked.both]

theorem Checked.map_eq_ok_iff {a : Checked α} {f : α → β} {y : β} :
    a.map f = .ok y ↔ ∃ x, a = .ok x ∧ f x = y := by
  cases a with
  | error => exact iff_of_false nofun nofun
  | ok => simp [Except.map]

theorem required_eq_ok_iff {read : Json → Option α} {a : α} :
    required fields names read = .ok a ↔ ∃ v, Stands fields names v ∧ read v = some a := by
  simp only [← firstField?_eq_some_iff, ← Option.bind_eq_some_iff]
  unfold required Checked.ofOption
  cases (firstField? fields names).bind read with
  | none => exact iff_of_false nofun nofun
  | some => simp

theorem requiredText_eq_ok_iff {t : Text} :
    required fields names text? = .ok t ↔ SpellsText fields names t := by
  rw [required_eq_ok_iff]
  constructor
  · rintro ⟨v, found, taken⟩
    cases v with
    | str t => exact Option.some.inj taken ▸ found
    | null | bool | int | num | arr | obj => cases taken
  · exact fun found => ⟨_, found, rfl⟩

theorem all_eq_ok_iff {read : Json → Checked α} {Spells : α → Json → Prop}
    (reads : ∀ v a, read v = .ok a ↔ Spells a v) {items : List Json} {as : List α} :
    Checked.all (items.map read) = .ok as ↔ List.Forall₂ Spells as items := by
  induction items generalizing as with
  | nil =>
      rw [List.forall₂_nil_right_iff, List.map_nil, Checked.all]
      exact ⟨fun h => (Except.ok.inj h).symm, fun h => h ▸ rfl⟩
  | cons v items ih =>
      rw [List.map_cons, Checked.all_cons, Checked.map_eq_ok_iff, List.forall₂_cons_right_iff]
      simp only [Prod.exists, Checked.both_eq_ok_iff, reads, ih]
      constructor
      · rintro ⟨a, rest, ⟨first, later⟩, same⟩
        exact ⟨a, rest, first, later, same.symm⟩
      · rintro ⟨a, rest, first, later, same⟩
        exact ⟨a, rest, ⟨first, later⟩, same.symm⟩

theorem listOf_eq_ok_iff {read : Json → Checked α} {Spells : α → Json → Prop}
    (reads : ∀ v a, read v = .ok a ↔ Spells a v) {as : List α} :
    listOf fields names read = .ok as ↔ SpellsList fields names Spells as := by
  unfold listOf SpellsList
  simp only [← firstField?_eq_some_iff, ← firstField?_eq_none_iff]
  cases firstField? fields names with
  | none => simp [eq_comm]
  | some v =>
      cases v with
      | null => simp [eq_comm]
      | arr items => simpa using all_eq_ok_iff reads
      | bool | int | num | str | obj => simp

theorem record_eq_ok_iff {read : List (Text × Json) → Checked α} {raw : Json} {a : α} :
    record read raw = .ok a ↔ ∃ fields, raw = .obj fields ∧ read fields = .ok a := by
  cases raw with
  | obj fields => simp [record]
  | null | bool | int | num | str | arr => simp [record]

end Json

theorem Artifact.ofJson_eq_ok_iff (raw : Json) (a : Artifact) :
    ofJson raw = .ok a ↔ a.Spelled raw := by
  unfold ofJson Spelled
  simp only [Json.record_eq_ok_iff, Json.Checked.map_eq_ok_iff, Prod.exists,
    Json.Checked.both_eq_ok_iff, Json.requiredText_eq_ok_iff]
  refine exists_congr fun fields => and_congr_right fun _ => ?_
  constructor
  · rintro ⟨path, code, spelled, rfl⟩
    exact spelled
  · exact fun spelled => ⟨_, _, spelled, rfl⟩

theorem Highlight.ofJson_eq_ok_iff (raw : Json) (h : Highlight) :
    ofJson raw = .ok h ↔ h.Spelled raw := by
  unfold ofJson Spelled Json.SpellsInteger
  simp only [Json.record_eq_ok_iff, Json.Checked.map_eq_ok_iff, Prod.exists,
    Json.Checked.both_eq_ok_iff, Json.required_eq_ok_iff]
  refine exists_congr fun fields => and_congr_right fun _ => ?_
  constructor
  · rintro ⟨_, _, _, _, spelled, rfl⟩
    exact spelled
  · exact fun spelled => ⟨_, _, _, _, spelled, rfl⟩

theorem Diagnostic.ofJson_eq_ok_iff (raw : Json) (d : Diagnostic) :
    ofJson raw = .ok d ↔ d.Spelled raw := by
  unfold ofJson Spelled
  simp only [Json.record_eq_ok_iff, Json.Checked.map_eq_ok_iff, Prod.exists,
    Json.Checked.both_eq_ok_iff, Json.requiredText_eq_ok_iff,
    Json.listOf_eq_ok_iff Highlight.ofJson_eq_ok_iff]
  refine exists_congr fun fields => and_congr_right fun _ => ?_
  constructor
  · rintro ⟨_, _, spelled, rfl⟩
    exact spelled
  · exact fun spelled => ⟨_, _, spelled, rfl⟩

theorem CompileResult.ofJson_eq_ok_iff (raw : Json) (r : CompileResult) :
    ofJson raw = .ok r ↔ r.Spelled raw := by
  unfold ofJson Spelled
  simp only [Json.record_eq_ok_iff, Json.Checked.map_eq_ok_iff, Prod.exists,
    Json.Checked.both_eq_ok_iff, Json.listOf_eq_ok_iff Artifact.ofJson_eq_ok_iff,
    Json.listOf_eq_ok_iff Diagnostic.ofJson_eq_ok_iff]
  refine exists_congr fun fields => and_congr_right fun _ => ?_
  constructor
  · rintro ⟨_, _, spelled, rfl⟩
    exact spelled
  · exact fun spelled => ⟨_, _, spelled, rfl⟩

/-! ## Readers and forms -/

theorem Artifact.checks_ofJson : Checks form ofJson :=
  Json.checks_record fun _ =>
    (Json.takes_text.counts_required.single.append Json.takes_text.counts_required.single
      (by decide)).map _

theorem Highlight.checks_ofJson : Checks form ofJson := by
  have position {fields : List (Text × Json)} {names : List String} :=
    (@Json.Takes.counts_required _ _ fields names _ Json.takes_integer).single
  exact Json.checks_record fun _ =>
    ((position.append position (by decide)).append (position.append position (by decide))
      (by decide)).map _

theorem Diagnostic.checks_ofJson : Checks form ofJson :=
  Json.checks_record fun _ =>
    (Json.takes_text.counts_required.single.append Highlight.checks_ofJson.counts_listOf.single
      (by decide)).map _

theorem CompileResult.checks_ofJson : Checks form ofJson :=
  Json.checks_record fun _ =>
    (Artifact.checks_ofJson.counts_listOf.single.append
      Diagnostic.checks_ofJson.counts_listOf.single (by decide)).map _

/-! ## Answers -/

namespace CompilerReply

variable {raw : Json}

theorem result_eq_ok_iff {r : CompileResult} :
    (answered raw).result = .ok r ↔ CompileResult.ofJson raw = .ok r := by
  show (CompileResult.ofJson raw).mapError CompileFailure.malformed = .ok r ↔ _
  cases CompileResult.ofJson raw with
  | ok =>
      exact ⟨fun h => congrArg Except.ok (Except.ok.inj h),
        fun h => congrArg Except.ok (Except.ok.inj h)⟩
  | error => exact iff_of_false nofun nofun

theorem result_eq_error_iff {failure : CompileFailure} : (answered raw).result = .error failure ↔
    ∃ n, failure = .malformed n ∧ CompileResult.ofJson raw = .error n := by
  show (CompileResult.ofJson raw).mapError CompileFailure.malformed = .error failure ↔ _
  cases CompileResult.ofJson raw with
  | ok => exact iff_of_false nofun nofun
  | error n =>
      constructor
      · exact fun h => ⟨n, (Except.error.inj h).symm, rfl⟩
      · rintro ⟨_, rfl, ⟨⟩⟩
        rfl

/-- An answer comes to the result that it spells. If it spells none it comes to a failure, which says in
how many places it offends, and there is one at least. -/
theorem reads_or_counts (raw : Json) :
    (∀ r, (answered raw).result = .ok r ↔ r.Spelled raw) ∧
    ∀ failure, (answered raw).result = .error failure ↔
      ∃ n : Nat, failure = .malformed n ∧ failure.message =
          text "Malformed compiler response (" ++ Text.ofNat n ++ text " error(s))" ∧
        0 < n ∧ { path | Offends CompileResult.form raw path }.encard = n := by
  have counts := CompileResult.checks_ofJson raw
  refine ⟨fun r => result_eq_ok_iff.trans (CompileResult.ofJson_eq_ok_iff raw r), fun failure => ?_⟩
  rw [result_eq_error_iff]
  constructor
  · rintro ⟨n, rfl, error⟩
    exact ⟨n, rfl, rfl, counts.iff.mp error⟩
  · rintro ⟨n, rfl, -, size⟩
    exact ⟨n, rfl, counts.iff.mpr size⟩

/-- A module without a path and with a number for its code, and a range that is null. -/
example :
    (answered (.obj [
      (text "modules", .arr [.obj [(text "code", .int 1)]]),
      (text "diagnostics", .arr [.obj [
        (text "message", .str (text "m")),
        (text "highlights", .arr [.null, .obj [
          (text "startLine", .int 1), (text "start_col", .int 2),
          (text "endLine", .str (text " 3 ")), (text "endCol", .bool true)]])]])])).result =
      .error (.malformed 3) :=
  rfl

end CompilerReply

end Playground
