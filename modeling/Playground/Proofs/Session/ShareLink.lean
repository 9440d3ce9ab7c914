import Playground.Proofs.Json.RoundTrip
import Playground.Proofs.Text.Base64
import Playground.Proofs.Text.Percent
import Playground.Session.Fragment

/-!
# A share link gives back the session that it was made from

There are four layers, and each has its own module: JSON, UTF-8, base64, and the
repair of what happens to a link on its way. Here they are put together. A token
consists of link digits, so there is nothing to repair in one that comes
straight from the writer, and each of the other layers is undone by its reader.

Nothing is asked of the document. It may hold surrogates, and a high one in
front of a low one too, because the JSON of a link is not escaped.
-/

namespace Playground

theorem CodePoint.not_isBlank_of_isLinkDigit {c : CodePoint}
    (h : c.isLinkDigit = true) : c.isBlank = false := by
  simp only [isLinkDigit, Bool.or_eq_true, Bool.and_eq_true, decide_eq_true_eq,
    beq_iff_eq] at h
  simp only [isBlank, Bool.or_eq_false_iff, Bool.and_eq_false_iff,
    decide_eq_false_iff_not, beq_eq_false_iff_ne]
  omega

namespace Session

theorem legible_toJson (s : Session) : Json.Legible false Json.maxDepth s.toJson := by
  have legible (t : Text) : Json.LegibleText false t := fun h => absurd h (by decide)
  refine .obj (by simp only [List.map]; decide) (fun field _ => legible field.1) ?_
  simp only [List.forall_mem_cons]
  exact ⟨.str (legible _), .str (legible _), .str (legible _), .bool _,
    .str (legible _), List.forall_mem_nil _⟩

theorem minify_ofJson_name (mode : MinifyMode) :
    MinifyMode.ofJson (.str mode.name) = .ok mode := by
  cases mode <;> rfl

theorem strategy_ofJson_name (strategy : EntryStrategy) :
    EntryStrategy.ofJson (.str strategy.name) = .ok strategy := by
  cases strategy <;> rfl

theorem view_ofJson_name (view : View) :
    View.ofJson (.str view.name) = .ok view := by
  cases view <;> rfl

theorem fieldOr?_of_field? {α : Type} {fields : List (Text × Json)} {name : String}
    {value : Json} (default : α) (read : Json → Option α)
    (h : Json.field? fields (text name) = some value) :
    fieldOr? fields name default read = read value := by
  unfold fieldOr?
  rw [h]

/-- All fields are there, so the default session has no say. -/
theorem ofJson?_toJson (default s : Session) : ofJson? default s.toJson = some s := by
  unfold ofJson? toJson
  simp only []
  rw [fieldOr?_of_field? _ _ rfl, fieldOr?_of_field? _ _ rfl,
    fieldOr?_of_field? _ _ rfl, fieldOr?_of_field? _ _ rfl,
    fieldOr?_of_field? _ _ rfl, minify_ofJson_name, strategy_ofJson_name,
    view_ofJson_name]
  rfl

end Session

namespace Fragment

theorem isLinkDigit_of_mem_token {s : Session} {c : CodePoint} (h : c ∈ token s) :
    c.isLinkDigit = true :=
  Base64.isLinkDigit_of_mem_encode h

/-- In what consists of link digits there is nothing to be repaired. -/
theorem trim_decode_of_isLinkDigit {t : Text} (digits : ∀ c ∈ t, c.isLinkDigit = true) :
    (Percent.decode t).trim = t := by
  have unescaped : Percent.sign ∉ t := by
    intro h
    exact absurd (digits _ h) (by decide)
  rw [Percent.decode_of_not_mem unescaped]
  exact Text.trim_of_not_blank fun c hc =>
    CodePoint.not_isBlank_of_isLinkDigit (digits c hc)

theorem session?_token (default s : Session) :
    session? default (token s) = some s := by
  have read : Json.parse (Json.render .compact s.toJson) = .ok s.toJson :=
    Json.parse_render Json.Style.compact_separates s.legible_toJson
  unfold session?
  rw [trim_decode_of_isLinkDigit fun c => isLinkDigit_of_mem_token]
  simp only [token, Base64.decode_encode, Utf8.decodeLoose_encodeLoose, read,
    Except.toOption, Option.bind_eq_bind, Option.bind_some]
  exact Session.ofJson?_toJson default s

theorem token_ne_nil (s : Session) : token s ≠ [] :=
  Base64.encode_ne_nil (List.cons_ne_nil _ _)

end Fragment

namespace Fragment

/-- Reading a fragment takes back what was written into it. -/
theorem decode_encode (lead : Text) (default s : Session) :
    decode lead default (encode lead s) = s := by
  unfold decode encode
  rw [Text.after?_append]
  split
  · next h => cases h
  · next h => exact absurd (Option.some.inj h) (token_ne_nil s)
  · next t _ h =>
      rw [← Option.some.inj h, session?_token]
      rfl

/-- Every session has a fragment, which is the lead followed by link digits only,
and the session is read from it again, whatever the default one is. So no two
sessions share a fragment. -/
theorem round_trip (lead : Text) (default : Session) :
    (∀ s, ∃ token, encode lead s = lead ++ token ∧
      (∀ c ∈ token, c.isLinkDigit = true) ∧
      decode lead default (encode lead s) = s) ∧
    Function.Injective (encode lead) := by
  refine ⟨fun s => ⟨token s, rfl, fun c => isLinkDigit_of_mem_token, ?_⟩,
    fun s s' h => ?_⟩
  · exact decode_encode lead default s
  · rw [← decode_encode lead default s, h]
    exact decode_encode lead default s'

end Fragment

end Playground
