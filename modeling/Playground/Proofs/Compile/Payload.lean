import Playground.Compile.Process
import Playground.Proofs.Json.RoundTrip
import Playground.Proofs.Session.ShareLink

/-!
# What the compiler process reads

The options are written to the process in the escaped form, in which a high
surrogate in front of a low one looks like the one code point of the pair. So
the process does not always read the options that were written. It reads them
with all pairs joined, and two options are written alike when they differ in
nothing else.

A pair is joined at most once and a joined pair takes no part in another one,
because a code point beyond the first plane is no surrogate. That is why what is
read can be said by one pass over the text, and why a text is read as it stands
exactly if it has no pair.
-/

namespace Playground

namespace Json

variable {c high low whole : CodePoint} {t : Text}

/-- A text in which every surrogate pair has become one code point. -/
def joined : Text → Text
  | [] => []
  | [c] => [c]
  | high :: low :: t =>
    match joinPair? high low with
    | some whole => whole :: joined t
    | none => high :: joined (low :: t)

theorem joined_of_pair (pair : joinPair? high low = some whole) :
    joined (high :: low :: t) = whole :: joined t := by
  rw [joined, pair]

theorem joined_of_no_pair (pair : joinPair? high low = none) :
    joined (high :: low :: t) = high :: joined (low :: t) := by
  rw [joined, pair]

/-! ## Pairs -/

/-- The two halves of a pair and the code point that they stand for. -/
theorem joinPair?_eq_some (pair : joinPair? high low = some whole) :
    (0xD800 ≤ high.val ∧ high.val ≤ 0xDBFF) ∧ (0xDC00 ≤ low.val ∧ low.val ≤ 0xDFFF) ∧
      whole.val = 0x10000 + (high.val - 0xD800) * 1024 + (low.val - 0xDC00) := by
  unfold joinPair? at pair
  split at pair
  · next h =>
      unfold CodePoint.ofNat? at pair
      split at pair
      · refine ⟨⟨h.1, h.2.1⟩, h.2.2, ?_⟩
        rw [← Option.some.inj pair]
      · cases pair
  · cases pair

/-- What a pair was joined to makes no pair with the code point before it. -/
theorem joinPair?_of_joined (pair : joinPair? high low = some whole) :
    joinPair? c whole = none := by
  obtain ⟨-, -, h⟩ := joinPair?_eq_some pair
  unfold joinPair?
  exact if_neg (by omega)

/-- A code point outside ASCII is written as one escape or as two. -/
theorem escapeOne_of_le (h : 127 ≤ c.val) :
    escapeOne true c =
      if c.val < 0x10000 then unicodeEscape c.val
      else unicodeEscape (0xD800 + (c.val - 0x10000) / 1024) ++
        unicodeEscape (0xDC00 + (c.val - 0x10000) % 1024) := by
  have written := escaped_escapeOne true c
  generalize escapeOne true c = w at written ⊢
  cases written with
  | short _ _ _ low => omega
  | control low => omega
  | plain _ _ _ seen => exact absurd (seen.resolve_left (by decide)) (Nat.not_lt.mpr h)
  | unicode _ _ narrow => exact (if_pos narrow).symm
  | halves _ wide => exact (if_neg (Nat.not_lt.mpr wide)).symm

/-- A pair is written like the code point that it stands for. -/
theorem escapeOne_of_pair (pair : joinPair? high low = some whole) :
    escapeOne true whole = escapeOne true high ++ escapeOne true low := by
  obtain ⟨hhigh, hlow, hwhole⟩ := joinPair?_eq_some pair
  have first : 0xD800 + (whole.val - 0x10000) / 1024 = high.val := by omega
  have second : 0xDC00 + (whole.val - 0x10000) % 1024 = low.val := by omega
  rw [escapeOne_of_le (show 127 ≤ whole.val by omega), if_neg (by omega), first, second,
    escapeOne_of_le (show 127 ≤ high.val by omega), if_pos (by omega),
    escapeOne_of_le (show 127 ≤ low.val by omega), if_pos (by omega)]

/-! ## Joining all pairs of a text -/

theorem flatMap_escapeOne_joined (t : Text) :
    (joined t).flatMap (escapeOne true) = t.flatMap (escapeOne true) := by
  induction t using joined.induct with
  | case1 => rfl
  | case2 c => rfl
  | case3 high low t whole pair ih =>
      rw [joined_of_pair pair, List.flatMap_cons, List.flatMap_cons, List.flatMap_cons,
        ih, escapeOne_of_pair pair, List.append_assoc]
  | case4 high low t pair ih =>
      rw [joined_of_no_pair pair, List.flatMap_cons, List.flatMap_cons, ih]

/-- A text and what it is joined to are written alike. -/
theorem renderString_joined (t : Text) :
    renderString true (joined t) = renderString true t := by
  unfold renderString
  rw [flatMap_escapeOne_joined]

/-- What a joined text begins with makes no new pair with what stands before it. -/
theorem joinPair?_head_joined (pair : joinPair? c high = none) :
    ∀ d ∈ (joined (high :: t)).head?, joinPair? c d = none := by
  intro d hd
  cases t with
  | nil =>
      rw [← Option.some.inj hd]
      exact pair
  | cons low t =>
      cases hjoin : joinPair? high low with
      | none =>
          rw [joined_of_no_pair hjoin] at hd
          rw [← Option.some.inj hd]
          exact pair
      | some whole =>
          rw [joined_of_pair hjoin] at hd
          rw [← Option.some.inj hd]
          exact joinPair?_of_joined hjoin

theorem legibleText_joined (t : Text) : LegibleText true (joined t) := by
  intro ascii
  induction t using joined.induct with
  | case1 => exact .nil
  | case2 c => exact .singleton c
  | case3 high low t whole pair ih =>
      rw [joined_of_pair pair]
      refine List.isChain_cons.mpr ⟨fun d _ => ?_, ih⟩
      obtain ⟨-, -, h⟩ := joinPair?_eq_some pair
      exact joinPair?_eq_none (.inl (by omega))
  | case4 high low t pair ih =>
      rw [joined_of_no_pair pair]
      exact List.isChain_cons.mpr ⟨joinPair?_head_joined pair, ih⟩

/-- The texts that joining leaves as they are. -/
theorem joined_eq_self_iff : joined t = t ↔ LegibleText true t := by
  refine ⟨fun h => h ▸ legibleText_joined t, fun legible => ?_⟩
  have chain := legible rfl
  clear legible
  induction t using joined.induct with
  | case1 => rfl
  | case2 c => rfl
  | case3 high low t whole pair =>
      rw [chain.rel] at pair
      cases pair
  | case4 high low t pair ih => rw [joined_of_no_pair pair, ih chain.tail]

end Json

/-! ## Options -/

/-- A file with the pairs of its path and its code joined. -/
def InputFile.joined (file : InputFile) : InputFile :=
  ⟨Json.joined file.path, Json.joined file.code⟩

namespace CompileOptions

/-- The texts in the options, apart from the names of modes. -/
def texts (options : CompileOptions) : List Text :=
  options.rootDir :: options.input.flatMap fun file => [file.path, file.code]

/-- The options with the pairs of all texts joined. -/
def joined (options : CompileOptions) : CompileOptions :=
  { options with
    rootDir := Json.joined options.rootDir
    input := options.input.map InputFile.joined }

/-- Joining leaves options as they are if there is no pair in them. -/
theorem joined_eq_self_iff {options : CompileOptions} :
    options.joined = options ↔ ∀ t ∈ options.texts, Json.LegibleText true t := by
  obtain ⟨rootDir, transpile, mode, strategy, input, sourceMaps⟩ := options
  have file (file : InputFile) : file.joined = file ↔
      ∀ t ∈ [file.path, file.code], Json.LegibleText true t := by
    obtain ⟨path, code⟩ := file
    rw [List.forall_mem_cons, List.forall_mem_singleton, ← Json.joined_eq_self_iff,
      ← Json.joined_eq_self_iff]
    exact InputFile.mk.injEq .. ▸ Iff.rfl
  have files : input.map InputFile.joined = input ↔
      ∀ file ∈ input, file.joined = file := by
    have := List.map_inj_left (l := input) (f := InputFile.joined) (g := id)
    rwa [List.map_id] at this
  unfold joined texts
  rw [List.forall_mem_cons, List.forall_mem_flatMap, ← Json.joined_eq_self_iff,
    mk.injEq, files]
  simp only [file, true_and, and_true]

theorem minify_name_inj {mode mode' : MinifyMode} (h : mode.name = mode'.name) :
    mode = mode' := by
  have read := Session.minify_ofJson_name mode
  rw [h, Session.minify_ofJson_name mode'] at read
  exact (Except.ok.inj read).symm

theorem strategy_name_inj {strategy strategy' : EntryStrategy}
    (h : strategy.name = strategy'.name) : strategy = strategy' := by
  have read := Session.strategy_ofJson_name strategy
  rw [h, Session.strategy_ofJson_name strategy'] at read
  exact (Except.ok.inj read).symm

theorem toJson_injective : Function.Injective toJson := by
  rintro ⟨rootDir, transpile, mode, strategy, input, sourceMaps⟩
    ⟨rootDir', transpile', mode', strategy', input', sourceMaps'⟩ h
  have file : Function.Injective fun file : InputFile =>
      Json.obj [(text "path", .str file.path), (text "code", .str file.code)] := by
    rintro ⟨path, code⟩ ⟨path', code'⟩ h
    simp only [Json.obj.injEq, List.cons.injEq, Prod.mk.injEq, Json.str.injEq, true_and,
      and_true] at h
    exact congrArg₂ InputFile.mk h.1 h.2
  simp only [toJson, Json.obj.injEq, List.cons.injEq, Prod.mk.injEq, Json.str.injEq,
    Json.bool.injEq, Json.arr.injEq, true_and, and_true] at h
  obtain ⟨rfl, rfl, hmode, hstrategy, rfl, hinput⟩ := h
  rw [minify_name_inj hmode, strategy_name_inj hstrategy,
    List.map_injective_iff.mpr file hinput]

/-! ## The payload -/

theorem spaced_ascii : Json.Style.spaced.ascii = true := rfl

theorem renderItems_files (level : Nat) (files : List InputFile) :
    Json.renderItems .spaced level ((files.map InputFile.joined).map fun file =>
        .obj [(text "path", .str file.path), (text "code", .str file.code)]) =
      Json.renderItems .spaced level (files.map fun file =>
        .obj [(text "path", .str file.path), (text "code", .str file.code)]) := by
  induction files with
  | nil => rfl
  | cons file files ih =>
      simp only [List.map_cons, Json.renderItems, Json.renderAt, Json.renderFields, ih,
        InputFile.joined, spaced_ascii, Json.renderString_joined]

/-- Options and what they are joined to are written alike. -/
theorem render_joined (options : CompileOptions) :
    Json.render .spaced options.joined.toJson = Json.render .spaced options.toJson := by
  obtain ⟨rootDir, transpile, mode, strategy, input, sourceMaps⟩ := options
  cases input with
  | nil =>
      simp only [Json.render, toJson, joined, Json.renderAt, Json.renderFields,
        spaced_ascii, Json.renderString_joined, List.map_nil]
  | cons file files =>
      simp only [Json.render, toJson, joined, Json.renderAt, Json.renderFields,
        spaced_ascii, Json.renderString_joined, List.map_cons,
        InputFile.joined, renderItems_files]

/-- Options without pairs are legible when they are written for the process. -/
theorem legible_toJson {options : CompileOptions}
    (alone : ∀ t ∈ options.texts, Json.LegibleText true t) :
    Json.Legible true Json.maxDepth options.toJson := by
  obtain ⟨rootDir, transpile, mode, strategy, input, sourceMaps⟩ := options
  rw [texts, List.forall_mem_cons, List.forall_mem_flatMap] at alone
  obtain ⟨hroot, hfiles⟩ := alone
  have name (name : String) (h : Json.joined (text name) = text name) :
      Json.LegibleText true (text name) := Json.joined_eq_self_iff.mp h
  have hmode : Json.LegibleText true mode.name := by
    cases mode <;> exact Json.joined_eq_self_iff.mp (by decide)
  have hstrategy : Json.LegibleText true strategy.name := by
    cases strategy <;> exact Json.joined_eq_self_iff.mp (by decide)
  refine .obj (by simp only [List.map]; decide) ?_ ?_
  · simp only [List.forall_mem_cons]
    exact ⟨name _ (by decide), name _ (by decide), name _ (by decide),
      name _ (by decide), name _ (by decide), name _ (by decide), List.forall_mem_nil _⟩
  · simp only [List.forall_mem_cons]
    refine ⟨.str hroot, .bool _, .str hmode, .str hstrategy, .bool _, .arr ?_,
      List.forall_mem_nil _⟩
    intro item hitem
    obtain ⟨file, hfile, rfl⟩ := List.mem_map.mp hitem
    obtain ⟨hpath, hcode⟩ := List.forall_mem_cons.mp (hfiles file hfile)
    refine .obj (by simp only [List.map]; decide) ?_ ?_
    · simp only [List.forall_mem_cons]
      exact ⟨name _ (by decide), name _ (by decide), List.forall_mem_nil _⟩
    · simp only [List.forall_mem_cons]
      exact ⟨.str hpath, .str (List.forall_mem_singleton.mp hcode), List.forall_mem_nil _⟩

theorem joined_joined (options : CompileOptions) : options.joined.joined = options.joined := by
  have text (t : Text) : Json.joined (Json.joined t) = Json.joined t :=
    Json.joined_eq_self_iff.mpr (Json.legibleText_joined t)
  have file (file : InputFile) : file.joined.joined = file.joined :=
    congrArg₂ InputFile.mk (text file.path) (text file.code)
  simp only [joined, text, List.map_map, Function.comp_def, file]

/-- The process reads the options with all pairs joined. -/
theorem parse_payload (options : CompileOptions) :
    Json.parse (Json.render .spaced options.toJson) = .ok options.joined.toJson := by
  rw [← render_joined]
  exact Json.parse_render Json.Style.spaced_separates
    (legible_toJson (joined_eq_self_iff.mp options.joined_joined))

end CompileOptions

namespace ProcessCall

variable {command : List Text} {outcome : ProcessOutcome}

/-- A command that is found and may be started gets the options on its input. -/
theorem started_eq (named : command ≠ []) (found : outcome ≠ .missing)
    (allowed : outcome ≠ .denied) (options : CompileOptions) :
    ∃ process, (run command options outcome).started = some process ∧
      process.payload = Json.render .spaced options.toJson := by
  obtain ⟨program, words, rfl⟩ := List.exists_cons_of_ne_nil named
  cases outcome with
  | missing => exact absurd rfl found
  | denied => exact absurd rfl allowed
  | ended code output complaint => exact ⟨_, rfl, rfl⟩
  | hung => exact ⟨_, rfl, rfl⟩

/-- A process that is started reads its options with all pairs joined. These are
the options themselves exactly if no text in them has a high surrogate in front
of a low one, and other options are sent as the same payload exactly if they are
joined to the same ones. -/
theorem payload_read (named : command ≠ []) (found : outcome ≠ .missing)
    (allowed : outcome ≠ .denied) (options : CompileOptions) :
    ∃ process, (run command options outcome).started = some process ∧
      Json.parse process.payload = .ok options.joined.toJson ∧
      (Json.parse process.payload = .ok options.toJson ↔
        ∀ t ∈ options.texts, Json.LegibleText true t) ∧
      ∀ options' : CompileOptions,
        (∃ process', (run command options' outcome).started = some process' ∧
          process'.payload = process.payload) ↔ options'.joined = options.joined := by
  obtain ⟨process, started, payload⟩ := started_eq named found allowed options
  have read := CompileOptions.parse_payload options
  refine ⟨process, started, payload ▸ read, ?_, fun options' => ?_⟩
  · rw [payload, read, Except.ok.injEq, CompileOptions.toJson_injective.eq_iff]
    exact CompileOptions.joined_eq_self_iff
  obtain ⟨process', started', payload'⟩ := started_eq named found allowed options'
  rw [started', payload]
  constructor
  · rintro ⟨other, same, h⟩
    have read' := CompileOptions.parse_payload options'
    rw [← payload', Option.some.inj same, h, read] at read'
    exact (CompileOptions.toJson_injective (Except.ok.inj read')).symm
  · intro h
    refine ⟨process', rfl, ?_⟩
    rw [payload', ← CompileOptions.render_joined, h, CompileOptions.render_joined]

/-- A source of two halves reaches the process as one code point. -/
theorem payload_read_of_halves :
    ([text "c"] ≠ [] ∧ ProcessOutcome.hung ≠ .missing ∧ ProcessOutcome.hung ≠ .denied) ∧
      ∃ process,
        (run [text "c"] (.ofSession [] { source := [⟨0xD83D, by decide⟩, ⟨0xDE00, by decide⟩] }
          [⟨0xD83D, by decide⟩, ⟨0xDE00, by decide⟩]) .hung).started = some process ∧
        Json.parse process.payload = .ok (CompileOptions.ofSession []
          { source := [⟨0x1F600, by decide⟩] } [⟨0x1F600, by decide⟩]).toJson := by
  have given : [text "c"] ≠ [] ∧ ProcessOutcome.hung ≠ .missing ∧
      ProcessOutcome.hung ≠ .denied := by decide
  obtain ⟨process, started, read, -, -⟩ := payload_read given.1 given.2.1 given.2.2
    (.ofSession [] { source := [⟨0xD83D, by decide⟩, ⟨0xDE00, by decide⟩] }
      [⟨0xD83D, by decide⟩, ⟨0xDE00, by decide⟩])
  refine ⟨given, process, started, read.trans ?_⟩
  exact congrArg (fun options => Except.ok (CompileOptions.toJson options)) (by decide)

/-- The two halves of a pair and the code point of the pair are different sources,
but the process is sent the same payload, and does not read the options of the
first. -/
theorem halves_sent_as_whole :
    ∃ halves whole : CompileOptions, ∃ process process' : StartedProcess,
      (run [text "c"] halves .hung).started = some process ∧
      (run [text "c"] whole .hung).started = some process' ∧
      halves.code ≠ whole.code ∧ process.payload = process'.payload ∧
      Json.parse process.payload ≠ .ok halves.toJson := by
  refine ⟨.ofSession [] { source := [] } [⟨0xD83D, by decide⟩, ⟨0xDE00, by decide⟩],
    .ofSession [] { source := [] } [⟨0x1F600, by decide⟩],
    _, _, rfl, rfl, by decide, ?_, fun read => ?_⟩
  · rw [← CompileOptions.render_joined]
    exact congrArg (fun options => Json.render .spaced (CompileOptions.toJson options))
      (by decide)
  · rw [CompileOptions.parse_payload, Except.ok.injEq] at read
    exact absurd (CompileOptions.toJson_injective read) (by decide)

end ProcessCall

end Playground
