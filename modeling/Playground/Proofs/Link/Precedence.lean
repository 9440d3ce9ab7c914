import Playground.Proofs.Link.Circles

/-!
# A name is defined before it is used

A module uses names of others through what it imports and what it exports again. A
name is looked up along the export tables and the stars of any number of modules, and
the order of a chunk goes by what modules need at once, so the two could part. They do
not, because an entry of an export table that leads on, and a star, come from a
statement whose target the module needs. So the module that has a name at last is
needed, directly or not, by whoever asks for the name.

Where no circle is reached, a module stands behind all that it needs. With a circle
there is none of the modules in it that could stand behind the others.
-/

namespace Playground.Link.Graph

open Relation

variable {root name : Text} {circles : List Text} {g : Graph} {hooks : Hooks} {m : Module}
  {budget : Nat} {input : Text}

/-! ## No circles -/

/-- No module that a root needs, directly or not, needs itself. -/
def Acyclic (g : Graph) (root : Text) : Prop :=
  ∀ name, Reaches g.modules root name → ¬ TransGen (Needs g.modules) name name

/-- Circles are warned of, so that there is none where the order gives no warning. -/
theorem WellFormed.acyclic_of_reports (w : g.WellFormed hooks)
    (known : root ∈ g.modules.map Module.id)
    (silent : ((g.staticOrder root).run []).2 = []) : g.Acyclic root := by
  obtain ⟨circles, run, reports⟩ := searches_staticOrder w known
  rw [reports [], List.append_nil, List.reverse_eq_nil_iff, List.map_eq_nil_iff] at silent
  intro name reach circle
  exact (w.arranges known run).warned.mpr ⟨name, reach, circle⟩ silent

/-- Where no circle is reached, each module stands behind all that it needs. -/
theorem WellFormed.idxOf_order_lt (w : g.WellFormed hooks)
    (known : root ∈ g.modules.map Module.id) (acyclic : g.Acyclic root) {first last : Text}
    (listed : first ∈ g.order root) (needs : TransGen (Needs g.modules) first last) :
    (g.order root).idxOf last < (g.order root).idxOf first := by
  obtain ⟨circles, run, -⟩ := searches_staticOrder w known
  have leads : LeadsTo g.modules [] [root] := List.forall_mem_nil _
  have begins : Behind g.modules [] [] := List.forall_mem_nil _
  have behind : Behind g.modules circles (g.order root) := run.behind leads begins
  have none : circles = [] := by
    by_contra some
    obtain ⟨name, reach, circle⟩ := (w.arranges known run).warned.mp some
    exact acyclic name reach circle
  subst none
  exact behind.idxOf_lt listed needs

/-! ## What a module draws on -/

/-- A module imports from another one, or it exports from there again. -/
def Draws (m : Module) (target : Text) : Prop :=
  (∃ i ∈ m.imports, i.target = some target) ∨ ∃ r ∈ m.reExports, r.target = some target

theorem WellFormed.needs_of_draws (w : g.WellFormed hooks) (mem : m ∈ g.modules) {target : Text}
    (draws : Draws m target) : Needs g.modules m.id target := by
  obtain ⟨o, read⟩ := w.read m mem
  refine needs_of_mem w.distinct mem ?_
  rcases draws with ⟨i, hi, found⟩ | ⟨r, hr, found⟩
  · exact read.lift (F := fun m => i ∈ m.imports → target ∈ m.staticDeps)
      (fun _ h => Module.mem_staticDeps_of_mem_imports h found) hi
  · exact read.lift (F := fun m => r ∈ m.reExports → target ∈ m.staticDeps)
      (fun _ h => Module.mem_staticDeps_of_mem_reExports h found) hr

/-- The modules of a chunk without circles come in an order in which each stands behind
those that have the names it imports and exports again, however the names come to it:
by export tables that lead on and by stars, to any depth. -/
theorem owner_precedes (built : build hooks budget input = .ok g) (hroot : root ∈ g.roots)
    (acyclic : g.Acyclic root) (warnings : List Text) :
    let order := ((g.staticOrder root).run warnings).1
    order.Nodup ∧ ∀ m ∈ g.modules, m.id ∈ order → ∀ target, Draws m target →
      ∀ name found, g.resolveExport target name = some found →
        ∃ owner ∈ g.modules, g.origin target name = some (owner.id, found) ∧
          (∃ exported, (exported, .here found) ∈ owner.exports) ∧
          owner.id ∈ order ∧ order.idxOf owner.id < order.idxOf m.id := by
  have w := wellFormed_build built
  intro order
  have same : order = g.order root := (gives_staticOrder g root warnings).1
  rw [same]
  refine ⟨nodup_order g root, fun m mem listed target draws name found resolved => ?_⟩
  rw [resolveExport_eq] at resolved
  obtain ⟨⟨id, _⟩, origin, rfl⟩ := Option.map_eq_some_iff.mp resolved
  obtain ⟨reach, owner, hm, rfl, own⟩ := w.of_originFrom origin
  have needs : TransGen (Needs g.modules) m.id owner.id :=
    TransGen.head' (w.needs_of_draws mem draws) reach
  refine ⟨owner, hm, origin, own, ?_, w.idxOf_order_lt (w.root_mem hroot) acyclic listed needs⟩
  exact mem_order_iff.mpr ((mem_order_iff.mp listed).trans needs.to_reflTransGen)

/-- A name that comes by a star and then by a clause that exports it again. -/
def relayed : List Artifact :=
  [⟨text "input.js", text "import \x7b x \x7d from \"./a\";\nexport const y = x;\n"⟩,
    ⟨text "a.js", text "import \"./d\";\nexport * from \"./b\";\n"⟩,
    ⟨text "b.js", text "export \x7b z as x \x7d from \"./c\";\n"⟩,
    ⟨text "c.js", text "import \"./d\";\nexport const z = 1;\n"⟩,
    ⟨text "d.js", text "const d = 2;\n"⟩]

theorem owner_precedes_relayed : ∃ g, ofModules relayed (text "input.js") = .ok g ∧
    g.entry ∈ g.roots ∧ g.Acyclic g.entry ∧
    ((g.staticOrder g.entry).run []).1 =
      [text "./d.js", text "./c.js", text "./b.js", text "./a.js", text "input.js"] ∧
    ∃ m ∈ g.modules, m.id = g.entry ∧ Draws m (text "./a.js") ∧
      g.resolveExport (text "./a.js") (text "x") = some (text "z") ∧
      g.origin (text "./a.js") (text "x") = some (text "./c.js", text "z") ∧
      ((g.staticOrder g.entry).run []).1.idxOf (text "./c.js") <
        ((g.staticOrder g.entry).run []).1.idxOf m.id := by
  have run : (ofModules relayed (text "input.js")).toOption.map (fun g =>
      (((g.staticOrder g.entry).run []).1, g.origin (text "./a.js") (text "x"),
        decide (((g.staticOrder g.entry).run []).2 = [] ∧ g.entry = text "input.js" ∧
          ∃ m ∈ g.modules, m.id = g.entry ∧ ∃ i ∈ m.imports, i.target = some (text "./a.js")))) =
      some ([text "./d.js", text "./c.js", text "./b.js", text "./a.js", text "input.js"],
        some (text "./c.js", text "z"), true) := by decide +kernel
  obtain ⟨g, built, run⟩ := Except.map_toOption_eq_some_iff.mp run
  obtain ⟨searched, run⟩ := Prod.mk.inj run
  obtain ⟨from', run⟩ := Prod.mk.inj run
  obtain ⟨silent, entry, m, mem, own, imports⟩ := of_decide_eq_true run
  have w := @wellFormed_build (Hooks.ofModules relayed) (budgetFor (relayed.map Artifact.code))
    (text "input.js") g built
  have draws : Draws m (text "./a.js") := .inl imports
  have hroot : g.entry ∈ g.roots := mem_roots_iff.mpr (.inl rfl)
  have acyclic : g.Acyclic g.entry := w.acyclic_of_reports w.entry silent
  have resolved : g.resolveExport (text "./a.js") (text "x") = some (text "z") := by
    rw [resolveExport_eq, from']
    rfl
  have listed : m.id ∈ ((g.staticOrder g.entry).run []).1 := by
    rw [searched, own, entry]
    decide
  obtain ⟨owner, -, origin, -, -, before⟩ := (@owner_precedes g.entry g (Hooks.ofModules relayed)
    (budgetFor (relayed.map Artifact.code)) (text "input.js") built hroot acyclic []).2
      m mem listed _ draws _ _ resolved
  have owned : text "./c.js" = owner.id :=
    congrArg Prod.fst (Option.some.inj (from'.symm.trans origin))
  exact ⟨g, built, hroot, acyclic, searched, m, mem, own, draws, resolved, from', owned ▸ before⟩

end Playground.Link.Graph
