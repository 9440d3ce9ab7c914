import Playground.Proofs.Link.BreadthFirst
import Playground.Proofs.Link.Rendering

/-!
# The order in a chunk, and circles

The search for the order of a chunk is said here a second time, as the steps of a
run without fuel. The run that belongs to the search of a root exists, because the
modules on the way are distinct and every module that is needed is known. So what
is shown of runs holds of the search, warnings included.

Each module on the way needs the ids that are looked at next, directly or not. An
id that is met while it is on the way closes a circle, and this is where the search
gives a warning. In all other cases what a module needs is finished before it. So
without a warning each module stands behind all that it needs, and then there is no
circle at all.
-/

namespace Playground.Link.Graph

open Relation

variable {modules : List Module} {active done found circles names : List Text}
  {name root : Text} {g : Graph} {hooks : Hooks} {m : Module}

/-! ## Runs of the search -/

/-- A run of the search through some ids, with `active` on the way and `done`
finished before. Afterwards `found` are finished, and `circles` are the ids that were
met on the way to themselves. -/
inductive Searches (modules : List Module) :
    List Text → List Text → List Text → List Text → List Text → Prop
  | nil {active done : List Text} : Searches modules active [] done done []
  | finished {active names done found circles : List Text} {name : Text}
      (known : name ∈ done) (later : Searches modules active names done found circles) :
      Searches modules active (name :: names) done found circles
  | circle {active names done found circles : List Text} {name : Text}
      (new : name ∉ done) (back : name ∈ active)
      (later : Searches modules active names done found circles) :
      Searches modules active (name :: names) done found (name :: circles)
  | enter {active names done inner found circles circles' : List Text} {name : Text} {m : Module}
      (new : name ∉ done) (inactive : name ∉ active) (known : find? modules name = some m)
      (below : Searches modules (name :: active) m.staticDeps done inner circles)
      (later : Searches modules active names (inner ++ [name]) found circles') :
      Searches modules active (name :: names) done found (circles ++ circles')

/-- The warning for an id that was met on the way to itself. -/
def circleWarning (name : Text) : Text :=
  text "Circular dependency through " ++ name

/-- All that modules need at once is there. -/
def ClosedAtOnce (modules : List Module) : Prop :=
  ∀ m ∈ modules, ∀ dep ∈ m.staticDeps, dep ∈ modules.map Module.id

theorem WellFormed.closedAtOnce (w : g.WellFormed hooks) : ClosedAtOnce g.modules :=
  fun m mem dep hd => w.closed m mem dep (List.mem_append_left _ hd)

theorem needs_of_find? (known : find? modules name = some m) {dep : Text} :
    Needs modules name dep ↔ dep ∈ m.staticDeps := by
  rw [Needs, staticDeps, known]
  rfl

/-- Some work has a result and gives just these warnings, in this order. -/
def Reports {α : Type} (x : Warned α) (a : α) (messages : List Text) : Prop :=
  ∀ ws, x.run ws = (a, messages.reverse ++ ws)

theorem Reports.pure {α : Type} (a : α) : Reports (pure a) a [] :=
  fun _ => rfl

theorem Reports.bind {α β : Type} {x : Warned α} {f : α → Warned β} {a : α} {b : β}
    {messages more : List Text} (h : Reports x a messages) (next : Reports (f a) b more) :
    Reports (x >>= f) b (messages ++ more) := by
  intro ws
  show (f (x.run ws).1).run (x.run ws).2 = _
  rw [h ws, next, List.reverse_append, List.append_assoc]

theorem Reports.gives {α : Type} {x : Warned α} {a b : α} {messages : List Text}
    (h : Reports x a messages) (given : Gives x b) : a = b := by
  rw [← (given []).1, h []]

/-- The search is a run, and it warns of the circles of the run. The induction is on
the fuel, which every module that becomes active lowers, and then on the ids. -/
theorem searches_foldlM (closed : ClosedAtOnce modules) {fuel : Nat}
    (fits : Fits modules active fuel) (known : names ⊆ modules.map Module.id)
    (done : List Text) : ∃ found circles, Searches modules active names done found circles ∧
      Reports (names.foldlM (fun done name => visit modules fuel active name done) done) found
        (circles.map circleWarning) := by
  induction fuel generalizing active names done with
  | zero => exact absurd rfl fits.pos
  | succ fuel ih =>
      induction names generalizing done with
      | nil => exact ⟨done, [], .nil, .pure done⟩
      | cons name rest ihRest =>
          obtain ⟨here, known⟩ := List.cons_subset.mp known
          rw [List.foldlM_cons, visit_succ]
          by_cases old : name ∈ done
          · obtain ⟨found, circles, later, reports⟩ := ihRest known done
            rw [if_pos old]
            exact ⟨found, circles, .finished old later, (Reports.pure done).bind reports⟩
          · rw [if_neg old]
            by_cases back : name ∈ active
            · obtain ⟨found, circles, later, reports⟩ := ihRest known done
              rw [if_pos back]
              have warned : Reports (do warn (circleWarning name); return done) done
                [circleWarning name] := fun _ => rfl
              exact ⟨found, name :: circles, .circle old back later, warned.bind reports⟩
            · rw [if_neg back]
              obtain ⟨m, hm⟩ := Option.isSome_iff_exists.mp (find?_isSome_iff.mpr here)
              have deps : staticDeps modules name = m.staticDeps := by
                rw [staticDeps, hm]
                rfl
              obtain ⟨inner, circles, below, reports⟩ :=
                ih (fits.enter back here) (closed m (mem_of_find? hm)) done
              obtain ⟨found, circles', later, reports'⟩ := ihRest known (inner ++ [name])
              rw [deps]
              refine ⟨found, circles ++ circles', .enter old back hm below later, ?_⟩
              rw [List.map_append, ← List.append_nil (circles.map circleWarning)]
              exact (reports.bind (f := fun done => pure (done ++ [name])) (.pure _)).bind reports'

theorem searches_staticOrder (w : g.WellFormed hooks) (known : root ∈ g.modules.map Module.id) :
    ∃ circles, Searches g.modules [] [root] [] (g.order root) circles ∧
      Reports (g.staticOrder root) (g.order root) (circles.map circleWarning) := by
  obtain ⟨found, circles, run, reports⟩ := searches_foldlM w.closedAtOnce (fits_nil g.modules)
    (List.cons_subset.mpr ⟨known, List.nil_subset _⟩) []
  have same : (g.staticOrder root) = [root].foldlM (fun done name =>
      visit g.modules (g.modules.length + 1) [] name done) [] := by
    rw [List.foldlM_cons]
    simp only [List.foldlM_nil, bind_pure]
    rfl
  rw [← same] at reports
  obtain rfl := reports.gives (gives_staticOrder g root)
  exact ⟨circles, run, reports⟩

/-! ## What a run leaves -/

namespace Searches

theorem isPrefix (h : Searches modules active names done found circles) : done <+: found := by
  induction h with
  | nil => exact List.prefix_rfl
  | finished _ _ ih => exact ih
  | circle _ _ _ ih => exact ih
  | enter _ _ _ _ _ below later => exact (below.trans (List.prefix_append _ _)).trans later

/-- What is on the way is not finished meanwhile. -/
theorem fresh (h : Searches modules active names done found circles) :
    ∀ x ∈ found, x ∈ done ∨ x ∉ active := by
  induction h with
  | nil => exact fun x hx => .inl hx
  | finished _ _ ih => exact ih
  | circle _ _ _ ih => exact ih
  | enter _ inactive _ _ _ below later =>
      intro x hx
      rcases later x hx with hx | hx
      · rcases List.mem_append.mp hx with hx | hx
        · exact (below x hx).imp_right List.not_mem_of_not_mem_cons
        · rw [List.mem_singleton.mp hx]
          exact .inr inactive
      · exact .inr hx

/-- Every id that is looked at is finished, or it closes a circle. -/
theorem lands (h : Searches modules active names done found circles) :
    ∀ x ∈ names, x ∈ found ∨ x ∈ active ∧ x ∈ circles := by
  induction h with
  | nil => exact List.forall_mem_nil _
  | finished known later ih =>
      exact List.forall_mem_cons.mpr ⟨.inl (later.isPrefix.subset known), ih⟩
  | circle _ back _ ih =>
      refine List.forall_mem_cons.mpr ⟨.inr ⟨back, List.mem_cons_self⟩, fun x hx => ?_⟩
      exact (ih x hx).imp_right (And.imp_right (List.mem_cons_of_mem _))
  | enter _ _ _ _ later _ ih =>
      refine List.forall_mem_cons.mpr ⟨.inl (later.isPrefix.subset ?_), fun x hx => ?_⟩
      · exact List.mem_append_right _ (List.mem_singleton_self _)
      · exact (ih x hx).imp_right (And.imp_right (List.mem_append_right _))

theorem getLast?_eq (h : Searches modules [] [root] [] found circles) :
    found.getLast? = some root := by
  cases h with
  | finished known => cases known
  | circle _ back => cases back
  | enter _ _ _ _ later =>
      cases later
      exact List.getLast?_concat

end Searches

/-! ## Circles -/

/-- The modules on the way need all ids of some list, directly or not. -/
def LeadsTo (modules : List Module) (active names : List Text) : Prop :=
  ∀ a ∈ active, ∀ x ∈ names, TransGen (Needs modules) a x

theorem LeadsTo.tail (h : LeadsTo modules active (name :: names)) :
    LeadsTo modules active names :=
  fun a ha x hx => h a ha x (List.mem_cons_of_mem _ hx)

theorem LeadsTo.enter (h : LeadsTo modules active (name :: names))
    (known : find? modules name = some m) :
    LeadsTo modules (name :: active) m.staticDeps := by
  intro a ha x hx
  have needs := (needs_of_find? known).mpr hx
  rcases List.mem_cons.mp ha with rfl | ha
  · exact .single needs
  · exact (h a ha name List.mem_cons_self).tail needs

/-- What is warned of is reached from where the run begins, and needs itself. -/
theorem Searches.needs_itself (h : Searches modules active names done found circles)
    (leads : LeadsTo modules active names) :
    ∀ c ∈ circles, (∃ x ∈ names, Reaches modules x c) ∧ TransGen (Needs modules) c c := by
  induction h with
  | nil => exact List.forall_mem_nil _
  | finished _ _ ih =>
      intro c hc
      obtain ⟨⟨x, hx, reach⟩, circle⟩ := ih leads.tail c hc
      exact ⟨⟨x, List.mem_cons_of_mem _ hx, reach⟩, circle⟩
  | @circle active names done found circles name _ back _ ih =>
      refine List.forall_mem_cons.mpr ⟨?_, fun c hc => ?_⟩
      · exact ⟨⟨name, List.mem_cons_self, .refl⟩, leads name back name List.mem_cons_self⟩
      · obtain ⟨⟨x, hx, reach⟩, circle⟩ := ih leads.tail c hc
        exact ⟨⟨x, List.mem_cons_of_mem _ hx, reach⟩, circle⟩
  | @enter active names done inner found circles circles' name m _ _ known _ _ below later =>
      intro c hc
      rcases List.mem_append.mp hc with hc | hc
      · obtain ⟨⟨x, hx, reach⟩, circle⟩ := below (leads.enter known) c hc
        have needs := (needs_of_find? known).mpr hx
        exact ⟨⟨name, List.mem_cons_self, .head needs reach⟩, circle⟩
      · obtain ⟨⟨x, hx, reach⟩, circle⟩ := later leads.tail c hc
        exact ⟨⟨x, List.mem_cons_of_mem _ hx, reach⟩, circle⟩

/-! ## What stands behind what -/

/-- Each module stands behind all that it needs, but for what is warned of and needs
the module in turn. -/
def Behind (modules : List Module) (circles done : List Text) : Prop :=
  ∀ x ∈ done, ∀ dep, Needs modules x dep →
    done.idxOf dep < done.idxOf x ∨ dep ∈ circles ∧ Reaches modules dep x

theorem Behind.mono {more : List Text} (h : Behind modules circles done) (sub : circles ⊆ more) :
    Behind modules more done :=
  fun x hx dep needs => (h x hx dep needs).imp_right (And.imp_left fun hd => sub hd)

theorem idxOf_lt_append {x dep : Text} {l : List Text} (hx : x ∈ l) (h : l.idxOf dep < l.idxOf x)
    (more : List Text) : (l ++ more).idxOf dep < (l ++ more).idxOf x := by
  have mem : dep ∈ l := List.idxOf_lt_length_iff.mp (Nat.lt_of_lt_of_le h List.idxOf_le_length)
  rwa [List.idxOf_append_of_mem mem, List.idxOf_append_of_mem hx]

/-- A module that comes last stands behind all that was finished before it. -/
theorem Behind.concat (h : Behind modules circles done) (new : name ∉ done)
    (deps : ∀ dep, Needs modules name dep → dep ∈ done ∨ dep ∈ circles ∧ Reaches modules dep name) :
    Behind modules circles (done ++ [name]) := by
  intro x hx dep needs
  rcases List.mem_append.mp hx with hx | hx
  · exact (h x hx dep needs).imp_left fun lt => idxOf_lt_append hx lt [name]
  · rw [List.mem_singleton.mp hx] at needs ⊢
    refine (deps dep needs).imp_left fun mem => ?_
    rw [List.idxOf_append_of_mem mem, List.idxOf_append_of_notMem new, List.idxOf_cons_self]
    exact List.idxOf_lt_length_iff.mpr mem

theorem Searches.behind (h : Searches modules active names done found circles)
    (leads : LeadsTo modules active names) {before : List Text}
    (begins : Behind modules before done) : Behind modules (before ++ circles) found := by
  induction h generalizing before with
  | nil => exact begins.mono (List.subset_append_left _ _)
  | finished _ _ ih => exact ih leads.tail begins
  | circle _ _ _ ih =>
      refine (ih leads.tail begins).mono fun c hc => ?_
      rw [List.mem_append, List.mem_cons]
      exact (List.mem_append.mp hc).imp_right .inr
  | @enter active names done inner found circles circles' name m new inactive known run _
      below later =>
      have new' : name ∉ inner := fun hn =>
        (run.fresh name hn).elim new fun hne => hne List.mem_cons_self
      have inner' := below (leads.enter known) begins
      rw [← List.append_assoc]
      refine later leads.tail (inner'.concat new' fun dep needs => ?_)
      refine (run.lands dep ((needs_of_find? known).mp needs)).imp_right fun ⟨back, hc⟩ => ?_
      refine ⟨List.mem_append_right _ hc, ?_⟩
      rcases List.mem_cons.mp back with rfl | back
      · exact .refl
      · exact (leads dep back name List.mem_cons_self).to_reflTransGen

/-- Where nothing is warned of, a module stands behind all that it needs, directly or
not. -/
theorem Behind.idxOf_lt (h : Behind modules [] done) {x y : Text} (hx : x ∈ done)
    (needs : TransGen (Needs modules) x y) : done.idxOf y < done.idxOf x := by
  have step {x y : Text} (hx : x ∈ done) (needs : Needs modules x y) :
      done.idxOf y < done.idxOf x :=
    (h x hx y needs).resolve_right fun ⟨hc, _⟩ => List.not_mem_nil hc
  induction needs with
  | single needs => exact step hx needs
  | @tail b c _ needs ih =>
      have hb : b ∈ done := List.idxOf_lt_length_iff.mp (Nat.lt_of_lt_of_le ih List.idxOf_le_length)
      exact Nat.lt_trans (step hb needs) ih

/-! ## The order of a chunk -/

/-- The order of the modules that a root needs, with the ids that are warned of. -/
structure Arranges (modules : List Module) (root : Text) (order circles : List Text) :
    Prop where
  once : order.Nodup
  reached : ∀ name, name ∈ order ↔ Reaches modules root name
  known : order ⊆ modules.map Module.id
  last : order.getLast? = some root
  /-- Unless a module is needed in turn by what it needs, it stands behind that. -/
  behind : ∀ name ∈ order, ∀ dep, Needs modules name dep → ¬ Reaches modules dep name →
    order.idxOf dep < order.idxOf name
  /-- There is a warning exactly if a circle is reached. -/
  warned : circles ≠ [] ↔
    ∃ name, Reaches modules root name ∧ TransGen (Needs modules) name name
  /-- Whatever is warned of is part of a circle that is reached. -/
  circular : ∀ c ∈ circles, Reaches modules root c ∧ TransGen (Needs modules) c c

theorem WellFormed.arranges (w : g.WellFormed hooks) (known : root ∈ g.modules.map Module.id)
    (run : Searches g.modules [] [root] [] (g.order root) circles) :
    Arranges g.modules root (g.order root) circles := by
  have leads : LeadsTo g.modules [] [root] := List.forall_mem_nil _
  have begins : Behind g.modules [] [] := List.forall_mem_nil _
  have behind : Behind g.modules circles (g.order root) := run.behind leads begins
  have circular (c : Text) (hc : c ∈ circles) :
      Reaches g.modules root c ∧ TransGen (Needs g.modules) c c := by
    obtain ⟨⟨x, hx, reach⟩, circle⟩ := run.needs_itself leads c hc
    rw [List.mem_singleton.mp hx] at reach
    exact ⟨reach, circle⟩
  constructor
  case once => exact nodup_order g root
  case reached => exact fun name => mem_order_iff
  case known => exact fun name mem => w.mem_of_reaches known (mem_order_iff.mp mem)
  case last => exact run.getLast?_eq
  case behind =>
    intro name mem dep needs away
    exact (behind name mem dep needs).resolve_right fun ⟨_, back⟩ => away back
  case warned =>
    constructor
    · intro some
      obtain ⟨c, hc⟩ := List.exists_mem_of_ne_nil _ some
      exact ⟨c, circular c hc⟩
    · rintro ⟨name, reach, circle⟩ rfl
      exact Nat.lt_irrefl _ (behind.idxOf_lt (mem_order_iff.mpr reach) circle)
  case circular => exact circular

/-! ## The chunks together -/

/-- Every module that was loaded is needed by some root. -/
theorem exists_root_of_mem {budget : Nat} {input : Text}
    (built : build hooks budget input = .ok g) (mem : m ∈ g.modules) :
    ∃ root ∈ g.roots, Reaches g.modules root m.id := by
  have w := wellFormed_build built
  obtain ⟨visits, complete, deps⟩ := visits_build built
  obtain ⟨n, reached⟩ := visits.reached_of_mem (List.mem_map_of_mem mem)
  -- A reference is followed inside of a chunk, or it is dynamic and begins the next chunk.
  generalize m.id = name at reached
  induction reached with
  | entry => exact ⟨g.entry, mem_roots_iff.mpr (.inl rfl), .refl⟩
  | @step n name dep before reference ih =>
      obtain ⟨root, hroot, reach⟩ := ih
      obtain ⟨k, hk, rfl⟩ := List.mem_map.mp (mem_of_reachedIn complete before)
      rw [← deps k hk] at reference
      rcases List.mem_append.mp reference with needs | later
      · exact ⟨root, hroot, reach.tail (needs_of_mem w.distinct hk needs)⟩
      · exact ⟨dep, mem_roots_iff.mpr (.inr ⟨k, hk, later⟩), .refl⟩

/-- A chunk shows each of its modules, but for those that come to nothing. -/
theorem infix_chunkText {fileNames : List (Text × Text)} (shown : m ∈ g.shown root)
    (visible : ¬ (g.bodyText fileNames root m).all CodePoint.isBlank) :
    trimLines (g.bodyText fileNames root m) <:+: g.chunkText fileNames root := by
  have body : trimLines (g.bodyText fileNames root m) ∈
      g.bodies fileNames root (g.shown root) := by
    refine List.mem_map_of_mem (List.mem_filter.mpr ⟨List.mem_map_of_mem shown, ?_⟩)
    simpa using visible
  refine List.IsInfix.trans (Text.infix_join_of_mem ?_) (List.prefix_append _ _).isInfix
  split
  · exact body
  · exact List.mem_cons_of_mem _ body

/-- A module is inlined into one of the chunks, unless it comes to nothing there. -/
def IsInlined (g : Graph) (m : Module) (root : Text) (chunks : List Chunk) : Prop :=
  ∃ chunk ∈ chunks, chunk.code = g.chunkText (chunkNames g.roots) root ∧
    ((g.bodyText (chunkNames g.roots) root m).all CodePoint.isBlank ∨
      trimLines (g.bodyText (chunkNames g.roots) root m) <:+: chunk.code)

theorem isInlined_of_mem_shown (renders : g.RendersAll) (hroot : root ∈ g.roots)
    (shown : m ∈ g.shown root) : g.IsInlined m root g.chunks.1 := by
  rw [← map_fst_chunkNames g.roots] at hroot
  obtain ⟨name, hname, rfl⟩ := List.mem_map.mp hroot
  refine ⟨g.chunkOf name, ?_, rfl, or_iff_not_imp_left.mpr (infix_chunkText shown)⟩
  rw [chunks_eq renders]
  exact List.mem_map_of_mem hname

/-- The search for the order of a chunk ends. It lists what the root needs, each
module once and behind what it needs itself as far as there are no circles, and it
warns exactly if there are some. Every module is in the order of some root, and is
inlined into the chunk of that root. -/
theorem arranges_reachable {budget : Nat} {input : Text}
    (built : build hooks budget input = .ok g) :
    (∀ root ∈ g.modules.map Module.id, ∃ order circles,
      Searches g.modules [] [root] [] order circles ∧
      Reports (g.staticOrder root) order (circles.map circleWarning) ∧
      Arranges g.modules root order circles) ∧
    ∀ m ∈ g.modules, ∃ root ∈ g.roots, m.id ∈ ((g.staticOrder root).run []).1 ∧
      ∀ format chunks warnings, g.generate format = .ok (chunks, warnings) →
        g.IsInlined m root chunks := by
  have w := wellFormed_build built
  constructor
  · intro root known
    obtain ⟨circles, run, reports⟩ := searches_staticOrder w known
    exact ⟨_, circles, run, reports, w.arranges known run⟩
  · intro m mem
    obtain ⟨root, hroot, reach⟩ := exists_root_of_mem built mem
    have listed : m.id ∈ g.order root := mem_order_iff.mpr reach
    refine ⟨root, hroot, ?_, fun format chunks warnings made => ?_⟩
    · rwa [(gives_staticOrder g root []).1]
    · obtain ⟨-, renders, hgen⟩ := generate_eq_ok_iff.mp made
      rw [show chunks = g.chunks.1 from congrArg Prod.fst hgen]
      exact isInlined_of_mem_shown renders hroot ((mem_shown_iff w).mpr ⟨mem, listed⟩)

/-- Modules in a circle, and one that needs itself and is imported dynamically. -/
def looped : List Artifact :=
  [⟨text "input.js", text "import \"./a\";\n"⟩,
    ⟨text "a.js", text "import \"./b\";\nconst a = () => import(\"./c\");\n"⟩,
    ⟨text "b.js", text "import \"./a\";\nconst b = 2;\n"⟩,
    ⟨text "c.js", text "import \"./c\";\nexport const c = 3;\n"⟩]

theorem arranges_looped : ∃ g, ofModules looped (text "input.js") = .ok g ∧
    (∃ circles, Reports (g.staticOrder (text "input.js"))
        [text "./b.js", text "./a.js", text "input.js"] (circles.map circleWarning) ∧
      Arranges g.modules (text "input.js") [text "./b.js", text "./a.js", text "input.js"]
        circles ∧ circles = [text "./a.js"]) ∧
    ∃ root ∈ g.roots, text "./b.js" ∈ ((g.staticOrder root).run []).1 ∧
      ∃ m chunks warnings, g.generate (text "es") = .ok (chunks, warnings) ∧
        m.id = text "./b.js" ∧ g.IsInlined m root chunks := by
  have run : (ofModules looped (text "input.js")).toOption.map (fun g =>
      (g.modules.map Module.id, ((g.staticOrder (text "input.js")).run []).1,
        ((g.staticOrder (text "input.js")).run []).2, (g.generate (text "es")).toOption.isSome)) =
      some ([text "input.js", text "./a.js", text "./b.js", text "./c.js"],
        [text "./b.js", text "./a.js", text "input.js"], [circleWarning (text "./a.js")],
        true) := by decide +kernel
  obtain ⟨g, built, run⟩ := Except.map_toOption_eq_some_iff.mp run
  obtain ⟨ids, run⟩ := Prod.mk.inj run
  obtain ⟨searched, run⟩ := Prod.mk.inj run
  obtain ⟨warned, made⟩ := Prod.mk.inj run
  obtain ⟨arranged, inlined⟩ := @arranges_reachable g (Hooks.ofModules looped)
    (budgetFor (looped.map Artifact.code)) (text "input.js") built
  obtain ⟨⟨chunks, warnings⟩, made⟩ := Option.isSome_iff_exists.mp made
  have made := Except.toOption_eq_some_iff.mp made
  refine ⟨g, built, ?_, ?_⟩
  · obtain ⟨order, circles, -, reports, arranges⟩ :=
      arranged (text "input.js") (ids ▸ List.mem_cons_self)
    rw [reports []] at searched warned
    cases searched
    refine ⟨circles, reports, arranges, ?_⟩
    change (circles.map circleWarning).reverse ++ [] = _ at warned
    rw [List.append_nil, List.reverse_eq_iff, List.reverse_singleton, List.map_eq_singleton_iff]
      at warned
    obtain ⟨c, rfl, same⟩ := warned
    rw [List.append_cancel_left same]
  · have mem : text "./b.js" ∈ g.modules.map Module.id := by
      rw [ids]
      decide
    obtain ⟨m, hm, hid⟩ := List.mem_map.mp mem
    obtain ⟨root, hroot, listed, shows⟩ := inlined m hm
    exact ⟨root, hroot, hid ▸ listed, m, chunks, warnings, made, hid, shows _ _ _ made⟩

end Playground.Link.Graph
