import Playground.Link.Exports

/-!
# Work that gives warnings

The linker gives warnings while it works. What comes of the work does not depend
on the warnings that were given before it, so each piece of work has a plain
result, and the warnings before it stay given. Plain results compose along the
work, so what is shown of a result never mentions warnings again, and a warning
that some piece of the work gives is among the warnings at the end.
-/

namespace Playground

theorem Except.bind_eq_ok_iff {ε α β : Type} {r : Except ε α} {f : α → Except ε β} {b : β} :
    r >>= f = .ok b ↔ ∃ a, r = .ok a ∧ f a = .ok b := by
  cases r with
  | error e =>
      constructor
      · intro h
        cases h
      · rintro ⟨a, h, -⟩
        cases h
  | ok a =>
      constructor
      · intro h
        exact ⟨a, rfl, h⟩
      · rintro ⟨_, h, h'⟩
        cases h
        exact h'

theorem Except.toOption_eq_some_iff {ε α : Type} {r : Except ε α} {a : α} :
    r.toOption = some a ↔ r = .ok a := by
  cases r with
  | error e => simp [Except.toOption]
  | ok b => simp [Except.toOption]

theorem Except.map_toOption_eq_some_iff {ε α β : Type} {r : Except ε α} {f : α → β} {b : β} :
    r.toOption.map f = some b ↔ ∃ a, r = .ok a ∧ f a = b := by
  simp only [Option.map_eq_some_iff, Except.toOption_eq_some_iff]

end Playground

namespace Playground.Link.Graph

variable {α β : Type} {x : Warned α} {f : α → Warned β} {a : α} {b : β} {message : Text}

/-- The result of some work, whatever the warnings before, which stay given. -/
def Gives (x : Warned α) (a : α) : Prop :=
  ∀ ws, (x.run ws).1 = a ∧ ws ⊆ (x.run ws).2

/-- Some work warns of something. -/
def Warns (x : Warned α) (message : Text) : Prop :=
  ∀ ws, message ∈ (x.run ws).2

theorem Gives.pure (a : α) : Gives (pure a) a :=
  fun ws => ⟨rfl, List.Subset.refl ws⟩

theorem gives_warn (message : Text) : Gives (warn message) () :=
  fun ws => ⟨rfl, List.subset_cons_self message ws⟩

theorem Gives.bind (h : Gives x a) (next : Gives (f a) b) : Gives (x >>= f) b := by
  intro ws
  obtain ⟨value, keeps⟩ := h ws
  obtain ⟨value', keeps'⟩ := next (x.run ws).2
  have run : (x >>= f).run ws = (f a).run (x.run ws).2 := by
    show (f (x.run ws).1).run (x.run ws).2 = _
    rw [value]
  rw [run]
  exact ⟨value', List.Subset.trans keeps keeps'⟩

theorem Warns.bind (h : Warns x message) (given : Gives x a) (next : Gives (f a) b) :
    Warns (x >>= f) message := by
  intro ws
  show message ∈ ((f (x.run ws).1).run (x.run ws).2).2
  rw [(given ws).1]
  exact (next _).2 (h ws)

theorem Gives.mapM {plain : α → β} (h : ∀ a, Gives (f a) (plain a)) (l : List α) :
    Gives (l.mapM f) (l.map plain) := by
  induction l with
  | nil => exact .pure []
  | cons a rest ih =>
      rw [List.mapM_cons]
      exact (h a).bind (ih.bind (.pure _))

theorem Gives.foldlM {step : β → α → Warned β} {plain : β → α → β}
    (h : ∀ b a, Gives (step b a) (plain b a)) (l : List α) (b : β) :
    Gives (l.foldlM step b) (l.foldl plain b) := by
  induction l generalizing b with
  | nil => exact .pure b
  | cons a rest ih =>
      rw [List.foldlM_cons]
      exact (h b a).bind (ih _)

/-! ## Work that may end early -/

section Early

variable {ε : Type} {y : ExceptT ε Warned α} {k : α → ExceptT ε Warned β} {r : Except ε α}
  {plain : α → Except ε β}

/-- The next piece of the work is done unless the work has ended. -/
def unlessEnded (k : α → ExceptT ε Warned β) : Except ε α → Warned (Except ε β)
  | .ok a => (k a).run
  | .error e => Pure.pure (.error e)

theorem run_bind_eq : (y >>= k).run = y.run >>= unlessEnded k := by
  funext ws
  show (ExceptT.bindCont k (y.run ws).1) (y.run ws).2 = unlessEnded k (y.run ws).1 (y.run ws).2
  cases (y.run ws).1 <;> rfl

theorem Gives.lift (h : Gives x a) : Gives (liftM x : ExceptT ε Warned α).run (.ok a) := by
  intro ws
  obtain ⟨value, keeps⟩ := h ws
  exact ⟨congrArg Except.ok value, keeps⟩

theorem Gives.bind_run (h : Gives y.run r) (next : ∀ a, Gives (k a).run (plain a)) :
    Gives (y >>= k).run (r >>= plain) := by
  rw [run_bind_eq]
  refine Gives.bind h ?_
  cases r with
  | error e => exact .pure _
  | ok a => exact next a

/-- What gives warnings and cannot end is done before what may end. -/
theorem Gives.lift_bind {s : Except ε β} (h : Gives x a) (next : Gives (k a).run s) :
    Gives ((liftM x : ExceptT ε Warned α) >>= k).run s := by
  rw [run_bind_eq]
  exact Gives.bind h.lift next

theorem Gives.mapM_run {f : α → ExceptT ε Warned β} (h : ∀ a, Gives (f a).run (plain a))
    (l : List α) : Gives (l.mapM f).run (l.mapM plain) := by
  induction l with
  | nil => exact .pure _
  | cons a rest ih =>
      rw [List.mapM_cons, List.mapM_cons]
      exact (h a).bind_run fun b => ih.bind_run fun _ => .pure _

theorem Gives.foldlM_run {step : β → α → ExceptT ε Warned β} {next : β → α → Except ε β}
    (h : ∀ b a, Gives (step b a).run (next b a)) (l : List α) (b : β) :
    Gives (l.foldlM step b).run (l.foldlM next b) := by
  induction l generalizing b with
  | nil => exact .pure _
  | cons a rest ih =>
      rw [List.foldlM_cons, List.foldlM_cons]
      exact (h b a).bind_run ih

theorem Warns.lift (h : Warns x message) (given : Gives x a) :
    Warns (liftM x : ExceptT ε Warned α).run message :=
  h.bind given (.pure _)

theorem Warns.bind_run (h : Warns y.run message) (given : Gives y.run r)
    (next : ∀ a, Gives (k a).run (plain a)) : Warns (y >>= k).run message := by
  rw [run_bind_eq]
  cases r with
  | error e => exact h.bind given (.pure _)
  | ok a => exact h.bind given (next a)

end Early

end Playground.Link.Graph
