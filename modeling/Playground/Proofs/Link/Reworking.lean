import Playground.Proofs.Link.Remains

/-!
# Replacing within stretches

If each stretch that is replaced lies in one of some larger ones, then the larger ones
can be reworked one by one. What stands between them is kept, and they stay in their
order. Of a larger stretch that is replaced as a whole nothing is left but what is put
in its place.
-/

namespace Playground.Link.Edit

open Source

variable {source : Text} {e : Edit} {es : List Edit} {s t : Span} {spans : List Span} {pos : Nat}

/-- A source from a place on up to another one, with some stretches replaced. -/
def weaveTo (source : Text) (stop : Nat) : Nat → List Edit → Text
  | pos, [] => source.slice pos stop
  | pos, e :: rest =>
    source.slice pos e.span.start ++ e.replacement ++ weaveTo source stop e.span.stop rest

/-- The edits that are made in a stretch. -/
def inside (s : Span) (es : List Edit) : List Edit :=
  es.filter fun e => s.Holds e.span

/-- The edits that are made elsewhere. -/
def outside (s : Span) (es : List Edit) : List Edit :=
  es.filter fun e => ¬ s.Holds e.span

/-- What becomes of a stretch. -/
def reworked (source : Text) (es : List Edit) (s : Span) : Text :=
  weaveTo source s.stop s.start (inside s es)

/-- A source from a place on, with something else in the place of some stretches. -/
def substituted (source : Text) (put : Span → Text) : Nat → List Span → Text
  | pos, [] => source.drop pos
  | pos, s :: rest => source.slice pos s.start ++ put s ++ substituted source put s.stop rest

theorem substituted_congr {put put' : Span → Text} (same : ∀ s ∈ spans, put s = put' s) :
    substituted source put pos spans = substituted source put' pos spans := by
  induction spans generalizing pos with
  | nil => rfl
  | cons s rest ih =>
      obtain ⟨first, later⟩ := List.forall_mem_cons.mp same
      rw [substituted, substituted, first, ih later]

/-- What is behind a stretch is not in it. -/
theorem not_holds_of_le (le : s.stop ≤ t.start) (proper : t.start < t.stop) : ¬ s.Holds t := by
  rintro ⟨-, last⟩
  omega

theorem inside_cons (s : Span) (e : Edit) (rest : List Edit) : inside s (e :: rest) =
    if s.Holds e.span then e :: inside s rest else inside s rest := by
  simp [inside, List.filter_cons]

theorem outside_cons (s : Span) (e : Edit) (rest : List Edit) : outside s (e :: rest) =
    if s.Holds e.span then outside s rest else e :: outside s rest := by
  by_cases held : s.Holds e.span <;> simp [outside, held]

theorem inside_outside (proper : ∀ e ∈ es, e.span.start < e.span.stop) (le : s.stop ≤ t.start) :
    inside t (outside s es) = inside t es := by
  unfold inside outside
  rw [List.filter_filter]
  refine List.filter_congr fun e mem => ?_
  by_cases holds : t.Holds e.span
  · have := not_holds_of_le (Nat.le_trans le holds.1) (proper e mem)
    simp [holds, this]
  · simp [holds]

/-- What stands in front of a stretch is left as it is. -/
theorem weaveTo_eq {middle stop : Nat} (le : pos ≤ middle) (le' : middle ≤ stop)
    (behind : ∀ e ∈ es, middle ≤ e.span.start) :
    weaveTo source stop pos es = source.slice pos middle ++ weaveTo source stop middle es := by
  cases es with
  | nil => exact (between_append le le').symm
  | cons e rest =>
      have cut : source.slice pos middle ++ source.slice middle e.span.start =
          source.slice pos e.span.start := between_append le (behind e List.mem_cons_self)
      rw [weaveTo, weaveTo, ← cut]
      simp only [List.append_assoc]

/-- The edits in a first stretch are made up to its end, and then the others. -/
theorem weave_eq_weaveTo (ordered : Ordered es) (proper : ∀ e ∈ es, e.span.start < e.span.stop)
    (le : pos ≤ s.stop) (sides : ∀ e ∈ es, s.Holds e.span ∨ s.stop ≤ e.span.start) :
    weave source pos es = weaveTo source s.stop pos (inside s es) ++
      weave source s.stop (outside s es) := by
  induction es generalizing pos with
  | nil => exact drop_eq_slice_append le
  | cons e rest ih =>
      obtain ⟨first, ordered⟩ := List.pairwise_cons.mp ordered
      obtain ⟨proper₁, proper⟩ := List.forall_mem_cons.mp proper
      obtain ⟨side, sides⟩ := List.forall_mem_cons.mp sides
      by_cases held : s.Holds e.span
      · have later := ih ordered proper held.2 sides
        rw [weave, later, inside_cons, if_pos held, outside_cons, if_pos held, weaveTo]
        simp only [List.append_assoc]
      · have ahead := side.resolve_left held
        -- Nothing that comes later is in the stretch.
        have none (f : Edit) (mem : f ∈ e :: rest) : ¬ s.Holds f.span := by
          intro holds
          rcases List.mem_cons.mp mem with rfl | mem
          · exact held holds
          · have behind := Nat.le_trans ahead (Nat.le_trans (Nat.le_of_lt proper₁) (first f mem))
            exact not_holds_of_le behind (proper f mem) holds
        rw [inside, List.filter_eq_nil_iff.mpr fun f mem => by simpa using none f mem, outside,
          List.filter_eq_self.mpr fun f mem => by simpa using none f mem, weave, weave, weaveTo]
        have cut : source.slice pos s.stop ++ source.slice s.stop e.span.start =
            source.slice pos e.span.start := between_append le ahead
        rw [← cut]
        simp only [List.append_assoc]

/-- If all edits are in some stretches that are apart, each of these is reworked on its own. -/
theorem weave_eq_substituted (ordered : Ordered es)
    (proper : ∀ e ∈ es, e.span.start < e.span.stop)
    (apart : spans.Pairwise fun a b => a.stop ≤ b.start)
    (spread : ∀ s ∈ spans, pos ≤ s.start ∧ s.start ≤ s.stop)
    (held : ∀ e ∈ es, ∃ s ∈ spans, s.Holds e.span) :
    weave source pos es = substituted source (reworked source es) pos spans := by
  induction spans generalizing pos es with
  | nil =>
      cases es with
      | nil => rfl
      | cons e =>
          obtain ⟨s, mem, -⟩ := held e List.mem_cons_self
          cases mem
  | cons s rest ih =>
      obtain ⟨first, apart⟩ := List.pairwise_cons.mp apart
      obtain ⟨⟨after, le⟩, spread⟩ := List.forall_mem_cons.mp spread
      have sides (e : Edit) (mem : e ∈ es) : s.Holds e.span ∨ s.stop ≤ e.span.start := by
        obtain ⟨t, there, holds⟩ := held e mem
        rcases List.mem_cons.mp there with rfl | there
        · exact .inl holds
        · exact .inr (Nat.le_trans (first t there) holds.1)
      have others := @ih (outside s es) s.stop
        (ordered.sublist List.filter_sublist)
        (fun e mem => proper e (List.mem_filter.mp mem).1) apart
        (fun t there => ⟨first t there, (spread t there).2⟩) (fun e mem => by
          obtain ⟨mem, out⟩ := List.mem_filter.mp mem
          obtain ⟨t, there, holds⟩ := held e mem
          rcases List.mem_cons.mp there with rfl | there
          · exact absurd holds (of_decide_eq_true out)
          · exact ⟨t, there, holds⟩)
      have same : ∀ t ∈ rest, reworked source (outside s es) t = reworked source es t := by
        intro t there
        rw [reworked, reworked, inside_outside proper (first t there)]
      have whole : weaveTo source s.stop pos (inside s es) = source.slice pos s.start ++
          weaveTo source s.stop s.start (inside s es) :=
        weaveTo_eq after le fun e mem =>
          (of_decide_eq_true (List.mem_filter.mp mem).2 : s.Holds e.span).1
      rw [weave_eq_weaveTo ordered proper (Nat.le_trans after le) sides, whole, others,
        substituted, substituted_congr same, reworked]

/-- A stretch that is replaced as a whole is left to its replacement. -/
theorem reworked_eq (apart : es.Pairwise fun e f => e.span.Apart f.span)
    (proper : ∀ e ∈ es, e.span.start < e.span.stop) (mem : e ∈ es) :
    reworked source es e.span = e.replacement := by
  obtain ⟨before, after, rfl⟩ := List.append_of_mem mem
  obtain ⟨-, later, across⟩ := List.pairwise_append.mp apart
  obtain ⟨next, -⟩ := List.pairwise_cons.mp later
  have out {f : Edit} (there : f ∈ before ++ e :: after) (apart : e.span.Apart f.span) :
      ¬ e.span.Holds f.span := by
    rintro ⟨first, last⟩
    have := proper f there
    rcases apart with h | h <;> omega
  have own : inside e.span (before ++ e :: after) = [e] := by
    unfold inside
    rw [List.filter_append, List.filter_cons_of_pos (by simp [Span.Holds]),
      List.filter_eq_nil_iff.mpr, List.filter_eq_nil_iff.mpr]
    · rfl
    · intro f there
      simpa using out (List.mem_append_right _ (List.mem_cons_of_mem _ there)) (next f there)
    · intro f there
      simpa using out (List.mem_append_left _ there) (across f there e List.mem_cons_self).symm
  have empty (n : Nat) : source.slice n n = [] := by
    unfold Text.slice
    rw [Nat.sub_self, List.take_zero]
  rw [reworked, own, weaveTo, weaveTo, empty, empty, List.nil_append, List.append_nil]

end Playground.Link.Edit
