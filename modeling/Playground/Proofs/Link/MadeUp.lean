import Playground.Proofs.Link.Interface
import Playground.Proofs.Link.Lines
import Playground.Proofs.Link.Precedence
import Playground.Proofs.Link.Rebindings
import Playground.Proofs.Text.Characters

/-!
# Names that are made up

Names are made up for default values and for the objects that hold all exports of a
module. They are counted over all modules, so that no name is made up twice. Such a name
is declared where the module has what it stands for: in front of the default value, or in
the place of the re-export.

Where a chunk refers to an export that comes to such a name, the module that has it is
needed by the root of the chunk. So the module is in the chunk, and the declaration with
it. There is one exception. A root keeps its default value as it is, and no name is
declared for it. Other modules of the chunk can refer to it, and the root itself can, but
only where the root needs itself by way of a circle.
-/

namespace Playground.Link

open Source

/-! ## Numbers -/

/-- What stands in front of the number in a name that is made up. -/
def kinds : List String :=
  ["__default_", "__ns_"]

theorem madeUp_injective {kind kind' : String} (h : kind ∈ kinds) (h' : kind' ∈ kinds)
    {n n' : Nat} (same : Module.madeUp kind n = Module.madeUp kind' n') : n = n' := by
  have begins := congrArg (List.take 3) same
  unfold Module.madeUp at same begins
  simp only [kinds, List.mem_cons, List.not_mem_nil, or_false] at h h'
  rcases h with rfl | rfl <;> rcases h' with rfl | rfl
  · exact Text.ofNat_injective (List.append_cancel_left same)
  · rw [List.take_append_of_le_length (by decide), List.take_append_of_le_length (by decide)]
      at begins
    exact absurd begins (by decide)
  · rw [List.take_append_of_le_length (by decide), List.take_append_of_le_length (by decide)]
      at begins
    exact absurd begins (by decide)
  · exact Text.ofNat_injective (List.append_cancel_left same)

/-- Names that were made up while the count went from one number to another. -/
structure Numbered (before after : Nat) (names : List Text) : Prop where
  distinct : names.Nodup
  counted : ∀ name ∈ names, ∃ kind ∈ kinds, ∃ n, before < n ∧ n ≤ after ∧
    name = Module.madeUp kind n
  grows : before ≤ after

namespace Numbered

variable {before between after : Nat} {names more : List Text}

theorem nil (h : before ≤ after) : Numbered before after [] :=
  ⟨List.nodup_nil, List.forall_mem_nil _, h⟩

theorem perm (h : Numbered before after names) (p : names.Perm more) :
    Numbered before after more :=
  ⟨p.nodup_iff.mp h.distinct, fun name mem => h.counted name (p.mem_iff.mpr mem), h.grows⟩

/-- Names of later numbers are new. -/
theorem append (h : Numbered before between names) (later : Numbered between after more) :
    Numbered before after (names ++ more) where
  distinct := by
    refine List.nodup_append.mpr ⟨h.distinct, later.distinct, fun name mem name' mem' => ?_⟩
    rintro rfl
    obtain ⟨kind, hk, n, _, hn, same⟩ := h.counted name mem
    obtain ⟨kind', hk', n', hn', _, same'⟩ := later.counted name mem'
    have := madeUp_injective hk hk' (same.symm.trans same')
    omega
  counted := by
    have grows := h.grows
    have grows' := later.grows
    refine List.forall_mem_append.mpr ⟨fun name mem => ?_, fun name mem => ?_⟩
    · obtain ⟨kind, hk, n, lt, le, same⟩ := h.counted name mem
      exact ⟨kind, hk, n, lt, by omega, same⟩
    · obtain ⟨kind, hk, n, lt, le, same⟩ := later.counted name mem
      exact ⟨kind, hk, n, by omega, le, same⟩
  grows := Nat.le_trans h.grows later.grows

end Numbered

namespace Module

variable {hooks : Hooks} {resolve : Text → Option Text} {own source : Text} {count count' : Nat}
  {o : Outline} {m : Module}

/-- The name that is given to the object that a re-export makes of its target. -/
def objectName (r : LinkedReExport) : Option Text :=
  match r.taken with
  | .object _ name => r.target.map fun _ => name
  | _ => none

/-- The names that are made up for the default values of a module. -/
def valueNames (m : Module) : List Text :=
  m.leads.filterMap ExportLead.valueName

/-- The names that are made up for the objects of a module. -/
def objectNames (m : Module) : List Text :=
  m.reExports.filterMap objectName

/-- The names that are made up for a module. -/
def madeUpNames (m : Module) : List Text :=
  m.valueNames ++ m.objectNames

/-- The names that are made up for an item. -/
def freshOf (resolve : Text → Option Text) (count : Nat) (item : Item) : List Text :=
  (leadsOf count item).filterMap ExportLead.valueName ++
    (reExportsOf resolve count item).filterMap objectName

theorem madeUpNames_addItem (m : Module) (count : Nat) (item : Item) :
    (madeUpNames (addItem resolve m count item).1).Perm
      (m.madeUpNames ++ freshOf resolve count item) := by
  rw [addItem_eq]
  simp only [madeUpNames, valueNames, objectNames, freshOf, List.filterMap_append,
    List.append_assoc]
  refine .append_left _ ?_
  rw [← List.append_assoc, ← List.append_assoc]
  exact .append_right _ List.perm_append_comm

/-- An item that makes up a name counts it. -/
theorem numbered_freshOf (m : Module) (count : Nat) (item : Item) :
    Numbered count (addItem resolve m count item).2 (freshOf resolve count item) := by
  have one {kind : String} (h : kind ∈ kinds) :
      Numbered count (count + 1) [madeUp kind (count + 1)] :=
    ⟨List.nodup_singleton _, List.forall_mem_singleton.mpr
      ⟨kind, h, count + 1, Nat.lt_succ_self _, Nat.le_refl _, rfl⟩, Nat.le_succ _⟩
  cases item with
  | importing | other => exact .nil (Nat.le_refl _)
  | exporting span e =>
      cases e with
      | declaration | clause | other => exact .nil (Nat.le_refl _)
      | value start => exact one List.mem_cons_self
      | reExport source what =>
          cases what with
          | all | named =>
              cases h : resolve source <;>
                exact .nil (by simp [addItem, addExport, addReExport, h])
          | object exported =>
              cases h : resolve source <;>
                simp only [addItem, addExport, addReExport, freshOf, leadsOf, reExportsOf,
                  takenOf, h]
              · exact .nil (Nat.le_succ _)
              · exact one (List.mem_cons_of_mem _ List.mem_cons_self)

theorem numbered_ofOutline : Numbered count (ofOutline resolve own source count o).2
    (madeUpNames (ofOutline resolve own source count o).1) := by
  have all (l : List Item) (p : Module × Nat) (h : Numbered count p.2 p.1.madeUpNames) :
      Numbered count (l.foldl (fun p item => addItem resolve p.1 p.2 item) p).2
        (madeUpNames (l.foldl (fun p item => addItem resolve p.1 p.2 item) p).1) := by
    induction l generalizing p with
    | nil => exact h
    | cons item rest ih =>
        exact ih _ ((h.append (numbered_freshOf p.1 p.2 item)).perm
          (madeUpNames_addItem p.1 p.2 item).symm)
  obtain ⟨_, _, frame⟩ := ofOutline_frame resolve own source count o
  rw [frame]
  exact all o.items _ (.nil (Nat.le_refl _))

theorem numbered_read {id : Text} (h : Module.read hooks id source count = .ok (m, count')) :
    Numbered count count' m.madeUpNames := by
  unfold Module.read at h
  split at h
  · cases h
  · split at h
    · cases h
    · next o _ =>
        have numbered := @numbered_ofOutline (fun specifier => hooks.resolve specifier (some id))
          id source count o
        rwa [Except.ok.inj h] at numbered

end Module

namespace Graph

open Relation

variable {hooks : Hooks} {g : Graph} {m : Module} {modules : List Module} {budget count : Nat}
  {pending : Pending} {root name target imported input : Text}

/-! ## The names of a graph -/

theorem nodup_reverse {loaded : List Module}
    (numbered : Numbered 0 count (loaded.flatMap Module.madeUpNames)) :
    (loaded.reverse.flatMap Module.madeUpNames).Nodup :=
  (numbered.perm (loaded.reverse_perm.symm.flatMap_right _)).distinct

theorem nodup_loadFrom {loaded found : List Module}
    (h : loadFrom hooks budget count loaded pending = .ok found)
    (numbered : Numbered 0 count (loaded.flatMap Module.madeUpNames)) :
    (found.flatMap Module.madeUpNames).Nodup := by
  induction budget generalizing count loaded pending with
  | zero =>
      cases pending with
      | nil =>
          cases Except.ok.inj h
          exact nodup_reverse numbered
      | cons => cases h
  | succ budget ih =>
      cases pending with
      | nil =>
          cases Except.ok.inj h
          exact nodup_reverse numbered
      | cons first rest =>
          rw [loadFrom] at h
          split at h
          · exact ih h numbered
          · split at h
            · cases h
            · split at h
              · cases h
              · next m count' read =>
                  refine ih h ?_
                  rw [List.flatMap_cons]
                  exact (numbered.append (Module.numbered_read read)).perm List.perm_append_comm

/-- No name is made up twice. -/
theorem nodup_madeUpNames (built : build hooks budget input = .ok g) :
    (g.modules.flatMap Module.madeUpNames).Nodup := by
  unfold build at built
  split at built
  · cases built
  · next entry _ =>
      cases loaded : loadFrom hooks budget 0 [] [(entry, none)] with
      | error e =>
          rw [loaded] at built
          cases built
      | ok modules =>
          rw [loaded] at built
          cases built
          exact nodup_loadFrom loaded (.nil (Nat.le_refl 0))

/-- No two modules have a name that was made up. -/
theorem eq_of_mem_madeUpNames (once : (modules.flatMap Module.madeUpNames).Nodup) {k : Module}
    (hm : m ∈ modules) (hk : k ∈ modules) (own : name ∈ m.madeUpNames)
    (other : name ∈ k.madeUpNames) : m = k := by
  by_contra ne
  have symmetric : Std.Symm (Function.onFun List.Disjoint Module.madeUpNames) :=
    ⟨fun _ _ apart => List.disjoint_symm apart⟩
  exact (List.nodup_flatMap.mp once).2.forall hm hk ne own other

theorem nodup_of_mem (once : (modules.flatMap Module.madeUpNames).Nodup) (hm : m ∈ modules) :
    m.madeUpNames.Nodup :=
  (List.nodup_flatMap.mp once).1 m hm

/-! ## The constants of a chunk -/

/-- The names that are made up for a module and declared in the chunk of a root. A root
keeps its default value as it is. -/
def givenNames (root : Text) (m : Module) : List Text :=
  (if m.id = root then [] else m.valueNames) ++ m.objectNames

/-- The names of all constants that are put into a chunk. -/
def constNames (g : Graph) (root : Text) : List Text :=
  (g.shown root).flatMap fun m =>
    (m.imports.flatMap fun i => (g.rebound i).map Use.name) ++ givenNames root m

theorem nodup_shown (g : Graph) (root : Text) : (g.shown root).Nodup := by
  refine (nodup_order g root).filterMap fun name name' m hm hm' => ?_
  rw [← id_of_find? (Option.mem_def.mp hm), ← id_of_find? (Option.mem_def.mp hm')]

theorem count_constNames (g : Graph) (root name : Text) : (g.constNames root).count name =
    (g.declaredNames root).count name +
      ((g.shown root).flatMap (givenNames root)).count name := by
  rw [← List.count_append]
  exact (List.flatMap_append_perm _ _ _).symm.count_eq _

theorem givenNames_sublist (root : Text) (m : Module) :
    (givenNames root m).Sublist m.madeUpNames := by
  unfold givenNames Module.madeUpNames
  split
  · exact List.sublist_append_right _ _
  · exact .refl _

/-- What is made up for a module of a chunk is declared there, but for the default value
of the root. -/
theorem mem_givenNames_iff (distinct : m.madeUpNames.Nodup) (own : name ∈ m.madeUpNames) :
    name ∈ givenNames root m ↔ ¬ (m.id = root ∧ name ∈ m.valueNames) := by
  unfold givenNames
  split
  · next same =>
      have apart := (List.nodup_append.mp distinct).2.2
      rw [List.nil_append, and_iff_right same]
      constructor
      · exact fun object value => apart name value name object rfl
      · exact fun noValue => (List.mem_append.mp own).resolve_left noValue
  · next other => exact iff_of_true own fun h => other h.1

theorem count_givenNames (once : (g.modules.flatMap Module.madeUpNames).Nodup)
    (inside : g.shown root ⊆ g.modules) (hm : m ∈ g.shown root) (own : name ∈ m.madeUpNames) :
    ((g.shown root).flatMap (givenNames root)).count name =
      if m.id = root ∧ name ∈ m.valueNames then 0 else 1 := by
  have distinct : ((g.shown root).flatMap (givenNames root)).Nodup := by
    refine List.nodup_flatMap.mpr ⟨fun k hk => ?_, ?_⟩
    · exact (nodup_of_mem once (inside hk)).sublist (givenNames_sublist root k)
    · refine (nodup_shown g root).pairwise_of_forall_ne fun k hk k' hk' ne name mem mem' => ne ?_
      exact eq_of_mem_madeUpNames once (inside hk) (inside hk')
        ((givenNames_sublist root k).subset mem) ((givenNames_sublist root k').subset mem')
  have given : name ∈ (g.shown root).flatMap (givenNames root) ↔ name ∈ givenNames root m := by
    refine ⟨fun mem => ?_, fun mem => List.mem_flatMap.mpr ⟨m, hm, mem⟩⟩
    obtain ⟨k, hk, mem⟩ := List.mem_flatMap.mp mem
    rwa [eq_of_mem_madeUpNames once (inside hm) (inside hk) own
      ((givenNames_sublist root k).subset mem)]
  rw [mem_givenNames_iff (nodup_of_mem once (inside hm)) own] at given
  split
  · next undeclared => exact List.count_eq_zero.mpr fun mem => given.mp mem undeclared
  · next declared => exact List.count_eq_one_of_mem distinct (given.mpr declared)

/-! ## Where a constant is written -/

theorem infix_weave {e : Edit} {es : List Edit} {source : Text} {pos : Nat} (mem : e ∈ es) :
    e.replacement <:+: Edit.weave source pos es := by
  induction es generalizing pos with
  | nil => cases mem
  | cons f rest ih =>
      rw [Edit.weave]
      rcases List.mem_cons.mp mem with rfl | mem
      · exact ⟨_, _, rfl⟩
      · exact (ih mem).trans (List.suffix_append _ _).isInfix

theorem infix_dropWhile {p : CodePoint → Bool} {part t : Text} (some : part ≠ [])
    (first : ∀ c ∈ part.head?, p c = false) (h : part <:+: t) : part <:+: t.dropWhile p := by
  obtain ⟨before, after, rfl⟩ := h
  have kept : (part ++ after).dropWhile p = part ++ after := by
    refine Text.dropWhile_of_trimmed fun c hc => first c ?_
    rwa [List.head?_append_of_ne_nil _ some] at hc
  rw [List.append_assoc, List.dropWhile_append, kept]
  split
  · exact (List.prefix_append _ _).isInfix
  · exact ((List.prefix_append _ _).isInfix).trans (List.suffix_append _ _).isInfix

theorem infix_trimLines {part t : Text} (some : part ≠ []) (trimmed : part.Trimmed)
    (h : part <:+: t) : part <:+: trimLines t := by
  have isBreak {c : CodePoint} (h : c ≠ CodePoint.ofChar '\n') :
      decide (c = CodePoint.ofChar '\n') = false := decide_eq_false h
  have front := infix_dropWhile some (fun c hc => isBreak (trimmed.first c hc)) h
  have back := infix_dropWhile (List.reverse_eq_nil_iff.not.mpr some)
    (fun c hc => isBreak (trimmed.last c (List.head?_reverse ▸ hc))) (List.reverse_infix.mpr front)
  have turned := List.reverse_infix.mpr back
  rwa [List.reverse_reverse] at turned

/-- How the declaration of a name begins. -/
def constant (name : Text) : Text :=
  text "const " ++ name ++ text " = "

theorem head?_constant (name : Text) : (constant name).head? = some (CodePoint.ofChar 'c') := by
  rw [constant, List.append_assoc, List.head?_append_of_ne_nil _ (by decide)]
  rfl

theorem constant_ne_nil (name : Text) : constant name ≠ [] := by
  intro none
  have first := head?_constant name
  rw [none] at first
  cases first

theorem trimmed_constant (name : Text) : (constant name).Trimmed := by
  constructor
  · intro c hc
    cases (head?_constant name).symm.trans hc
    decide
  · intro c hc
    rw [constant, List.getLast?_append_of_ne_nil _ (by decide)] at hc
    cases hc
    decide

/-- What is put into a module is in the code of the chunk, if no stretches overlap. -/
theorem WellFormed.infix_chunkText (w : g.WellFormed hooks) (shown : m ∈ g.shown root)
    (clear : m.Clear) {names : List (Text × Text)} {e : Edit}
    (edit : e ∈ g.edits names (m.id = root) m) (declares : constant name <:+: e.replacement) :
    constant name <:+: g.chunkText names root := by
  have body := bodyText_eq (w.body_eq_ok ((mem_shown_iff w).mp shown).1 clear names root)
  have inside : constant name <:+: g.bodyText names root m := by
    rw [body]
    exact declares.trans (infix_weave ((Edit.inOrder_perm _).mem_iff.mpr edit))
  have visible : ¬ (g.bodyText names root m).all CodePoint.isBlank := by
    intro blank
    have mem : CodePoint.ofChar 'c' ∈ constant name := List.mem_of_mem_head? (head?_constant name)
    have := List.all_eq_true.mp blank _ (inside.subset mem)
    revert this
    decide
  exact (infix_trimLines (constant_ne_nil name) (trimmed_constant name) inside).trans
    (Graph.infix_chunkText shown visible)

/-! ## What refers to a name -/

/-- Somewhere in the chunk of a root an export of a module is referred to: by the constant
that stands for an import, by an object that holds all exports, or by a clause that the
root exports in the place of a re-export. -/
inductive Refers (g : Graph) (root : Text) : Text → Text → Prop
  | constant {m : Module} {i : LinkedImport} {u : Use} {imported : Text} (mem : m ∈ g.shown root)
      (hi : i ∈ m.imports) (hu : u ∈ g.rebound i) (plain : u.imported = some imported) :
      Refers g root u.origin imported
  | entry {m : Module} {i : LinkedImport} {u : Use} {imported : Text} (mem : m ∈ g.shown root)
      (hi : i ∈ m.imports) (hu : u ∈ g.rebound i) (whole : u.imported = none)
      (listed : imported ∈ g.exportNames u.origin) : Refers g root u.origin imported
  | exportedEntry {m : Module} {r : LinkedReExport} {target exported name imported : Text}
      (mem : m ∈ g.shown root) (hr : r ∈ m.reExports) (found : r.target = some target)
      (taken : r.taken = .object exported name) (listed : imported ∈ g.exportNames target) :
      Refers g root target imported
  | clause {m : Module} {r : LinkedReExport} {target : Text} {pair : Text × Text}
      (mem : m ∈ g.shown root) (own : m.id = root) (hr : r ∈ m.reExports)
      (found : r.target = some target)
      (whole : ∀ exported name, r.taken ≠ .object exported name)
      (hp : pair ∈ g.takenPairs target r.taken) : Refers g root target pair.1

/-- The chunk of a root uses a name of a module: where an export is referred to that comes
to it, or where the root exports an object under it. -/
inductive UsesName (g : Graph) (root : Text) (m : Module) (name : Text) : Prop
  | resolved {target imported : Text} (refers : g.Refers root target imported)
      (origin : g.origin target imported = some (m.id, name))
  | object {r : LinkedReExport} {target exported : Text} (own : m.id = root)
      (hr : r ∈ m.reExports) (found : r.target = some target)
      (taken : r.taken = .object exported name)

theorem draws_of_mem_rebound {i : LinkedImport} {u : Use} (hi : i ∈ m.imports)
    (hu : u ∈ g.rebound i) : Draws m u.origin := by
  have inner := List.mem_of_mem_filter hu
  unfold LinkedImport.inner at inner
  cases found : i.target with
  | none =>
      rw [found] at inner
      cases inner
  | some target =>
      rw [found] at inner
      rw [(mem_usesOf_iff.mp inner).1]
      exact .inl ⟨i, hi, found⟩

theorem Refers.exists_draws (h : g.Refers root target imported) :
    ∃ m ∈ g.shown root, Draws m target := by
  cases h with
  | constant mem hi hu | entry mem hi hu => exact ⟨_, mem, draws_of_mem_rebound hi hu⟩
  | exportedEntry mem hr found => exact ⟨_, mem, .inr ⟨_, hr, found⟩⟩
  | clause mem _ hr found => exact ⟨_, mem, .inr ⟨_, hr, found⟩⟩

/-- What an export comes to is in the chunk, and the root needs it. -/
theorem WellFormed.needs_owner (w : g.WellFormed hooks) (refers : g.Refers root target imported)
    {owner : Text} (origin : g.origin target imported = some (owner, name)) :
    TransGen (Needs g.modules) root owner := by
  obtain ⟨k, hk, draws⟩ := refers.exists_draws
  obtain ⟨mem, listed⟩ := (mem_shown_iff w).mp hk
  obtain ⟨reach, -⟩ := w.of_originFrom origin
  have needs : TransGen (Needs g.modules) k.id owner :=
    TransGen.head' (w.needs_of_draws mem draws) reach
  exact TransGen.trans_right (mem_order_iff.mp listed) needs

theorem mem_objectNames {r : LinkedReExport} {target exported : Text} (hr : r ∈ m.reExports)
    (found : r.target = some target) (taken : r.taken = .object exported name) :
    name ∈ m.objectNames := by
  refine List.mem_filterMap.mpr ⟨r, hr, ?_⟩
  rw [Module.objectName, taken, found]
  rfl

/-- What is declared of the names of a module is put into it. -/
theorem exists_edit_of_mem_givenNames {names : List (Text × Text)}
    (given : name ∈ givenNames root m) :
    ∃ e ∈ g.edits names (m.id = root) m, constant name <:+: e.replacement := by
  rcases List.mem_append.mp given with value | object
  · split at value
    · cases value
    · next other =>
        obtain ⟨lead, hl, named⟩ := List.mem_filterMap.mp value
        refine ⟨⟨lead.span, constant name⟩, ?_, List.infix_rfl⟩
        rw [decide_eq_false other]
        refine mem_edits_iff.mpr (.inr (.inl (List.mem_map.mpr ⟨lead, hl, ?_⟩)))
        rw [named, constant]
  · obtain ⟨r, hr, named⟩ := List.mem_filterMap.mp object
    unfold Module.objectName at named
    cases taken : r.taken with
    | object exported other =>
        rw [taken] at named
        obtain ⟨target, found, rfl⟩ := Option.map_eq_some_iff.mp named
        exact ⟨_, mem_edits_iff.mpr (.inr (.inr (.inr (.inl ⟨r, hr, rfl⟩)))),
          infix_reExportLine found taken⟩
    | all | named =>
        rw [taken] at named
        cases named

/-- What a chunk declares of a name that is made up for a module. The default value of its
root is the exception, `isOwn`. -/
structure Supplies (g : Graph) (root : Text) (m : Module) (name code : Text) (isOwn : Prop)
    [Decidable isOwn] : Prop where
  shown : m ∈ g.shown root
  /-- The name is declared once, but for imports to which their modules give the name. -/
  count : (g.constNames root).count name =
    (g.declaredNames root).count name + if isOwn then 0 else 1
  put : ¬ isOwn → ∃ e ∈ g.edits (chunkNames g.roots) (m.id = root) m,
    constant name <:+: e.replacement
  written : ¬ isOwn → m.Clear → constant name <:+: code
  circular : isOwn → TransGen (Needs g.modules) root root

/-- Every made-up name that a chunk uses is declared in the chunk, and declared once, unless
it stands for the default value of the root. That one is never declared. It is used only if
the root needs itself, directly or not. -/
theorem declares_made_up {format : Text} {made : List Chunk × List Text} {chunk : Chunk}
    (built : build hooks budget input = .ok g) (generated : g.generate format = .ok made)
    (mem : chunk ∈ made.1) : ∃ root ∈ g.roots,
      chunk.code = g.chunkText (chunkNames g.roots) root ∧
      ∀ m ∈ g.modules, ∀ name ∈ m.madeUpNames, g.UsesName root m name →
        g.Supplies root m name chunk.code (m.id = root ∧ name ∈ m.valueNames) := by
  have w := wellFormed_build built
  have once := nodup_madeUpNames built
  obtain ⟨-, renders, rfl⟩ := generate_eq_ok_iff.mp generated
  obtain ⟨root, hroot, code⟩ := exists_root_of_mem_chunks renders mem
  have inside : g.shown root ⊆ g.modules := fun m hm => ((mem_shown_iff w).mp hm).1
  refine ⟨root, hroot, code, fun m hm name own uses => ?_⟩
  have distinct := nodup_of_mem once hm
  have shown : m ∈ g.shown root := by
    refine (mem_shown_iff w).mpr ⟨hm, mem_order_iff.mpr ?_⟩
    cases uses with
    | resolved refers origin => exact (w.needs_owner refers origin).to_reflTransGen
    | object same => rw [same]
  have put (declared : ¬ (m.id = root ∧ name ∈ m.valueNames)) :
      ∃ e ∈ g.edits (chunkNames g.roots) (m.id = root) m, constant name <:+: e.replacement :=
    exists_edit_of_mem_givenNames ((mem_givenNames_iff distinct own).mpr declared)
  constructor
  case shown => exact shown
  case count => rw [count_constNames, count_givenNames once inside shown own]
  case put => exact put
  case written =>
    intro declared clear
    obtain ⟨e, edit, declares⟩ := put declared
    rw [code]
    exact w.infix_chunkText shown clear edit declares
  case circular =>
    rintro ⟨same, value⟩
    cases uses with
    | resolved refers origin => exact same ▸ w.needs_owner refers origin
    | object _ hr found taken =>
        have apart := (List.nodup_append.mp distinct).2.2
        exact absurd rfl (apart name value name (mem_objectNames hr found taken))

/-- Modules that need each other and have default values, which the entry uses. -/
def entwined : List Artifact :=
  [⟨text "input.js", text ("import d, * as n from \"./a\";\nexport * as m from \"./b\";\n" ++
      "export \x7b default as x \x7d from \"./b\";\nexport const y = d + n.default;\n")⟩,
    ⟨text "a.js", text "import \"./b\";\nexport default 1;\n"⟩,
    ⟨text "b.js", text "import \"./a\";\nexport default 2;\n"⟩]

theorem declares_made_up_entwined : ∃ g chunk, ofModules entwined (text "input.js") = .ok g ∧
    g.generate (text "es") = .ok ([chunk], [circleWarning (text "./a.js")]) ∧
    ∃ m ∈ g.modules, m.id = text "./a.js" ∧ text "__default_2" ∈ m.madeUpNames ∧
      g.UsesName g.entry m (text "__default_2") ∧
      (g.constNames g.entry).count (text "__default_2") = 1 ∧
      text "const __default_2 = " <:+: chunk.code := by
  have run : (ofModules entwined (text "input.js")).toOption.map (fun g : Graph =>
      ((g.generate (text "es")).toOption.map fun made => (made.1.length, made.2),
        decide (g.roots = [g.entry] ∧ text "__default_2" ∉ g.declaredNames g.entry ∧
          g.origin (text "./a.js") (text "default") = some (text "./a.js", text "__default_2")),
        decide (∃ k ∈ g.shown g.entry, ∃ i ∈ k.imports, ∃ u ∈ g.rebound i,
          u.imported = some (text "default") ∧ u.origin = text "./a.js"),
        decide (∃ m ∈ g.modules, m.id = text "./a.js" ∧ text "__default_2" ∈ m.madeUpNames ∧
          m.Clear ∧ m.id ≠ g.entry))) =
      some (some (1, [circleWarning (text "./a.js")]), true, true, true) := by
    decide +kernel
  obtain ⟨g, built, run⟩ := Except.map_toOption_eq_some_iff.mp run
  obtain ⟨made, run⟩ := Prod.mk.inj run
  obtain ⟨entry, run⟩ := Prod.mk.inj run
  obtain ⟨imports, owner⟩ := Prod.mk.inj run
  obtain ⟨⟨chunks, warnings⟩, generated, made⟩ := Except.map_toOption_eq_some_iff.mp made
  obtain ⟨one, rfl⟩ := Prod.mk.inj made
  obtain ⟨chunk, rfl⟩ := List.length_eq_one_iff.mp one
  obtain ⟨roots, plain, origin⟩ := of_decide_eq_true entry
  obtain ⟨k, hk, i, hi, u, hu, default, target⟩ := of_decide_eq_true imports
  obtain ⟨m, hm, own, madeUp, clear, other⟩ := of_decide_eq_true owner
  have refers : g.Refers g.entry (text "./a.js") (text "default") :=
    target ▸ .constant hk hi hu default
  have uses : g.UsesName g.entry m (text "__default_2") :=
    .resolved refers (origin.trans (by rw [own]))
  obtain ⟨root, hroot, -, supplies⟩ := @declares_made_up (Hooks.ofModules entwined) g
    (budgetFor (entwined.map Artifact.code)) (text "input.js") (text "es") _ chunk built generated
      (List.mem_singleton_self chunk)
  rw [roots, List.mem_singleton] at hroot
  subst hroot
  have supplied := supplies m hm _ madeUp uses
  have declared : ¬ (m.id = g.entry ∧ text "__default_2" ∈ m.valueNames) := fun h => other h.1
  refine ⟨g, chunk, built, generated, m, hm, own, madeUp, uses, ?_, ?_⟩
  · rw [supplied.count, List.count_eq_zero.mpr plain, if_neg declared]
  · exact supplied.written declared clear

/-- A dynamically imported module that exports its own default value again, by way of
another module. -/
def returning : List Artifact :=
  [⟨text "input.js", text "import(\"./b\");\n"⟩,
    ⟨text "b.js", text "export \x7b default as x \x7d from \"./c\";\nexport default 1 + 1;\n"⟩,
    ⟨text "c.js", text "export \x7b default \x7d from \"./b\";\n"⟩]

/-- The second chunk exports a made-up name that it does not declare. -/
theorem leaves_own_default_undeclared : ∃ g first chunk,
    ofModules returning (text "input.js") = .ok g ∧
    g.generate (text "es") = .ok ([first, chunk], [circleWarning (text "./b.js")]) ∧
    chunk.code = text "export \x7b __default_1 as x \x7d;\nexport default 1 + 1;\n" ∧
    ∃ m ∈ g.modules, m.id = text "./b.js" ∧ text "__default_1" ∈ m.madeUpNames ∧
      g.UsesName (text "./b.js") m (text "__default_1") ∧
      text "__default_1" ∉ g.constNames (text "./b.js") := by
  have run : (ofModules returning (text "input.js")).toOption.map (fun g : Graph =>
      ((g.generate (text "es")).toOption.map fun made => (made.1.map Chunk.code, made.2),
        decide (text "__default_1" ∉ g.constNames (text "./b.js") ∧
          g.origin (text "./c.js") (text "default") = some (text "./b.js", text "__default_1")),
        decide (∃ m ∈ g.shown (text "./b.js"), m.id = text "./b.js" ∧
          text "__default_1" ∈ m.madeUpNames ∧ ∃ r ∈ m.reExports,
            r.target = some (text "./c.js") ∧ Module.objectName r = none ∧
              ∃ pair ∈ g.takenPairs (text "./c.js") r.taken, pair.1 = text "default"))) =
      some (some ([text "import(\"./b.js\");\n",
        text "export \x7b __default_1 as x \x7d;\nexport default 1 + 1;\n"],
        [circleWarning (text "./b.js")]), true, true) := by
    decide +kernel
  obtain ⟨g, built, run⟩ := Except.map_toOption_eq_some_iff.mp run
  obtain ⟨made, run⟩ := Prod.mk.inj run
  obtain ⟨entry, owner⟩ := Prod.mk.inj run
  obtain ⟨⟨chunks, warnings⟩, generated, made⟩ := Except.map_toOption_eq_some_iff.mp made
  obtain ⟨codes, rfl⟩ := Prod.mk.inj made
  obtain ⟨undeclared, origin⟩ := of_decide_eq_true entry
  obtain ⟨m, shown, own, madeUp, r, hr, found, plain, pair, hp, default⟩ := of_decide_eq_true owner
  obtain ⟨first, rest, rfl, -, codes⟩ := List.map_eq_cons_iff.mp codes
  obtain ⟨chunk, rfl, code⟩ := List.map_eq_singleton_iff.mp codes
  have whole (exported name : Text) : r.taken ≠ .object exported name := by
    intro taken
    rw [Module.objectName, taken, found] at plain
    cases plain
  have refers : g.Refers (text "./b.js") (text "./c.js") (text "default") :=
    default ▸ .clause shown own hr found whole hp
  have w := @wellFormed_build (Hooks.ofModules returning) (budgetFor (returning.map Artifact.code))
    (text "input.js") g built
  exact ⟨g, first, chunk, built, generated, code, m, ((mem_shown_iff w).mp shown).1, own, madeUp,
    .resolved refers (origin.trans (by rw [own])), undeclared⟩

end Graph

end Playground.Link
