import Playground.Proofs.Pipeline.Convergence
import Playground.Proofs.Pipeline.Halting

/-!
# What a pipeline comes to

What a pipeline that goes on is going to display shows in its queue and in its
latest run. When the queue asks for something new, a run will be started for it.
When the latest run is in flight, it will end, and unless the compiler fails on
it, it will be displayed. When neither is the case nothing is going to happen at
all: the output stays as it is, for as long as nobody asks for anything.

A run that was cancelled is the exception, because the pipeline keeps in mind
what the run asked for. So the outlook is only followed from a time on when no
run is cancelled, and of the runs before it nothing is said.
-/

namespace Playground

namespace Core

variable {c d : Core} {r s : Run} {move : Move}

/-- As long as nobody asks for anything, the settled text and what is asked for
under the session stay the same. Only the view may change. -/
theorem Turn.keeps_input (turn : c.Turn move d) (quiet : move.isQuiet = true)
    (held : c.held = none) :
    d.held = none ∧ d.settled = c.settled ∧ d.session.source = c.session.source ∧
      ∀ source, d.optionsFor ⟨d.session, source⟩ = c.optionsFor ⟨c.session, source⟩ := by
  have input := Move.not_isInput_of_isQuiet quiet
  have same : c.held = none ∧ c.settled = c.settled ∧
      c.session.source = c.session.source ∧ ∀ source,
        c.optionsFor ⟨c.session, source⟩ = c.optionsFor ⟨c.session, source⟩ :=
    ⟨held, rfl, rfl, fun _ => rfl⟩
  cases turn with
  | still | answers | builds | loopEnds | loopSleeps | reaps | answerDue | buildDue =>
      exact same
  | views => exact ⟨held, rfl, rfl, fun _ => rfl⟩
  | edits _ _ h | chooses _ _ h | loads _ h => exact absurd h input
  | starts | halts => cases quiet
  | fires due => exact absurd (held.symm.trans due) (by simp)
  | consumes =>
      obtain ⟨_, _, _, hq⟩ := foldl_dispatch_frame c.queue _
      rw [hq]
      exact same
  | serves mem served =>
      obtain ⟨_, hc⟩ := called_frame c _
      cases served with
      | quits => exact same
      | _ => rw [hc]; exact same
  | notices =>
      obtain ⟨_, _, _, hn⟩ := notice_frame _
      rw [hn]
      exact same
  | resumes =>
      obtain ⟨_, _, _, _, hr⟩ := resume_frame _
      rw [hr]
      exact same

/-! ## What the latest run comes to -/

/-- The queue asks for something other than the latest run did. -/
def Renews (c : Core) : Prop :=
  ∃ trigger ∈ c.queue, c.latest ≠ some (c.optionsFor trigger)

/-- The latest run is in flight. -/
def Runs (c : Core) : Prop :=
  ∃ r ∈ c.runs, r.generation = c.generation ∧ r.stage.isOver = false

theorem Renews.keeps (h : c.Renews) (environment : d.environment = c.environment)
    (latest : d.latest = c.latest ∨ d.latest = none)
    (queue : ∀ trigger ∈ c.queue, trigger ∈ d.queue) : d.Renews := by
  obtain ⟨trigger, ht, hne⟩ := h
  refine ⟨trigger, queue trigger ht, ?_⟩
  rcases latest with hl | hl
  · simpa only [hl, optionsFor, environment] using hne
  · rw [hl]
    simp

/-- Working off a queue that asks for something new starts a run, and working
off any other changes nothing. -/
theorem runs_or_eq_foldl_dispatch (compiler : c.environment.compiler ≠ none)
    (queue : List Trigger) :
    (queue.foldl dispatch c).Runs ∨ queue.foldl dispatch c = c ∧
      ∀ trigger ∈ queue, c.latest = some (c.optionsFor trigger) := by
  by_cases h : ∃ trigger ∈ queue, c.latest ≠ some (c.optionsFor trigger)
  · obtain ⟨_, r, hr, hg, hs⟩ := exists_created_of_new compiler h
    exact .inl ⟨r, hr, hg, by rw [hs]; rfl⟩
  · push Not at h
    exact .inr ⟨foldl_dispatch_of_skips h, h⟩

/-- The options for the session as it is. -/
def asIs (c : Core) : CompileOptions :=
  c.optionsFor ⟨c.session, c.session.source⟩

/-- The pipeline heads for the session as it is if the settled text is the
document, and only then. -/
theorem wanted_eq_asIs_iff : c.wanted = c.asIs ↔ c.settled = c.session.source := by
  constructor
  · intro h
    have input : [InputFile.mk Settings.inputPath c.settled] =
        [InputFile.mk Settings.inputPath c.session.source] :=
      congrArg CompileOptions.input h
    injection input with file
    exact congrArg InputFile.code file
  · intro h
    rw [wanted, asIs, h]

/-! ## Nothing is going to be displayed -/

/-- Only a run that has not ended advances. -/
theorem Advance.isOpen {stage : Stage} (h : c.Advance d r move stage) :
    r.stage.isOver = false := by
  cases h with
  | waits h | answers h | answerDue h | builds h | buildDue h => rw [h]; rfl
  | bundles takes => exact takes.isOver
  | ends isOpen => exact isOpen
  | cancels live => exact isOver_of_isLive live

/-- Nothing new is asked for, and the latest run has ended. -/
structure Stuck (c : Core) : Prop where
  skips : ∀ trigger ∈ c.queue, c.latest = some (c.optionsFor trigger)
  ended : ¬ c.Runs
  held : c.held = none

theorem Stuck.skips_turn (k : c.Stuck) (quiet : move.isQuiet = true)
    (turn : c.Turn move d) :
    ∀ trigger ∈ d.queue, d.latest = some (d.optionsFor trigger) := by
  have input := Move.not_isInput_of_isQuiet quiet
  cases turn with
  | still | views | answers | builds | loopEnds | loopSleeps | reaps | answerDue
  | buildDue => exact k.skips
  | edits _ _ h | chooses _ _ h | loads _ h => exact absurd h input
  | starts | halts => cases quiet
  | fires due => exact absurd (k.held.symm.trans due) (by simp)
  | consumes =>
      obtain ⟨_, _, _, hq⟩ := foldl_dispatch_frame c.queue _
      rw [hq]
      exact List.forall_mem_nil _
  | @serves r _ mem served =>
      obtain ⟨_, hc⟩ := called_frame c r
      cases served with
      | quits => exact k.skips
      | fails takes =>
          have old : r.generation ≠ c.generation := fun hg =>
            k.ended ⟨r, mem, hg, takes.isOver⟩
          rw [hc, fail, if_neg old]
          exact k.skips
      | _ => rw [hc]; exact k.skips
  | notices =>
      obtain ⟨_, _, _, hn⟩ := notice_frame _
      rw [hn]
      exact k.skips
  | resumes =>
      obtain ⟨_, _, _, _, hr⟩ := resume_frame _
      rw [hr]
      exact k.skips

/-- As long as nobody asks for anything the output stays as it is. -/
theorem Stuck.turn (k : c.Stuck) (sound : c.Sound) (quiet : move.isQuiet = true)
    (turn : c.Turn move d) :
    d.Stuck ∧ d.output = c.output ∧ d.generation = c.generation := by
  have output : d.output = c.output := by
    by_contra hne
    obtain ⟨r, mem, _, _, yields, current, _⟩ := turn.publishes hne
    exact k.ended ⟨r, mem, current, yields.isOver⟩
  have generation : d.generation = c.generation := by
    rcases turn.consumes_or_keeps with ⟨-, rest, rfl⟩ | ⟨hg, _⟩
    · show (c.queue.foldl dispatch { c with queue := [], jobs := rest }).generation = _
      rw [foldl_dispatch_of_skips (c := { c with queue := [], jobs := rest }) k.skips]
    · exact hg
  have ended : ¬ d.Runs := by
    rintro ⟨s, hs, hg, isOpen⟩
    rw [generation] at hg
    rcases turn.continues sound hs with ⟨r, hr, hgr, _, hsame | hadvance⟩ | ⟨hlt, _⟩
    · exact k.ended ⟨r, hr, hgr.trans hg, hsame ▸ isOpen⟩
    · exact k.ended ⟨r, hr, hgr.trans hg, hadvance.isOpen⟩
    · exact absurd (hg ▸ hlt) (Nat.lt_irrefl _)
  exact ⟨⟨k.skips_turn quiet turn, ended, (turn.keeps_input quiet k.held).1⟩, output,
    generation⟩

end Core

/-! ## What is displayed and what was asked for last -/

section Past

variable {environment : Environment} {past since : Past} {p : Pipeline} {c d : Core}
  {move : Move} {g : Nat} {o : CompileOptions}

/-- Of all runs since some time that were in flight, those that the compiler
answered got a result. -/
def Past.Succeeds (past since : Past) (environment : Environment) : Prop :=
  ∀ g options reply,
    since.Saw (fun _ asked stage => asked = options ∧ stage.isOver = false) g →
      past.Answered environment g options reply → ∃ result, reply.result = .ok result

/-- What the compiler answered to these options is displayed. -/
def Past.Displays (past : Past) (environment : Environment) (output : Output)
    (options : CompileOptions) : Prop :=
  ∃ reply result, past.Shows environment options reply result output

theorem Past.Displays.cons {output : Output}
    (h : past.Displays environment output o) (step : Pipeline × Move) :
    Past.Displays (step :: past) environment output o := by
  obtain ⟨reply, result, shows⟩ := h
  exact ⟨reply, result, shows.cons step⟩

/-- The latest run has failed, and it was in flight since some time. -/
def Past.Failed (past since : Past) (environment : Environment) (generation : Nat)
    (options : CompileOptions) : Prop :=
  ∃ reply failure,
    since.Saw (fun _ asked stage => asked = options ∧ stage.isOver = false) generation ∧
    past.Answered environment generation options reply ∧ reply.result = .error failure

theorem Past.Failed.cons (h : past.Failed since environment g o)
    (step : Pipeline × Move) :
    Past.Failed (step :: past) (step :: since) environment g o := by
  obtain ⟨reply, failure, saw, answered, failed⟩ := h
  exact ⟨reply, failure, saw.cons step, answered.cons step, failed⟩

/-- What the latest run comes to, or is going to come to. Either something new is
asked for, or the run is in flight, or it has failed since some time, or what it
asked for is displayed. -/
def Outlook (environment : Environment) (past since : Past) (c : Core) : Prop :=
  c.Renews ∨ c.Runs ∨ ∀ options, past.Asks c c.generation options →
    past.Failed since environment c.generation options ∨
      past.Displays environment c.output options

/-- The latest run has come to its end, and the move starts no other. -/
theorem Outlook.of_ended (h : Chronicle environment past p.core)
    (ended : ∀ options, past.Asks p.core p.core.generation options →
      past.Failed since environment p.core.generation options ∨
        past.Displays environment p.core.output options)
    (turn : p.core.Turn move d) (latest : d.generation = p.core.generation) :
    Outlook environment ((p, move) :: past) ((p, move) :: since) d := by
  refine .inr (.inr fun o asks => ?_)
  rw [latest] at asks ⊢
  have before := asks.of_next h.sound turn (Nat.le_refl _)
  by_cases hout : d.output = p.core.output
  · rw [hout]
    exact (ended o before).imp (·.cons _) (·.cons _)
  · obtain ⟨r, mem, result, bundles, yields, current, _, output⟩ := turn.publishes hout
    obtain ⟨reply, shows⟩ := h.shows_of_yields move mem yields
    rw [output, ← h.options_of_asks before mem current]
    exact .inr ⟨reply, result, shows⟩

theorem Outlook.next (v : Outlook environment past since p.core)
    (h : Chronicle environment past p.core) (u : p.core.Unhalted)
    (compiler : environment.compiler ≠ none) (turn : p.core.Turn move d) :
    Outlook environment ((p, move) :: past) ((p, move) :: since) d := by
  rcases turn.consumes_or_keeps with ⟨-, rest, rfl⟩ | ⟨latest, kept, queue, -⟩
  · let e : Core := { p.core with queue := [], jobs := rest }
    have given : e.environment.compiler ≠ none := h.given ▸ compiler
    rcases Core.runs_or_eq_foldl_dispatch given p.core.queue with runs | ⟨he, skips⟩
    · exact .inr (.inl runs)
    · have latest : (p.core.queue.foldl Core.dispatch e).generation =
          p.core.generation := by rw [he]
      rcases v with ⟨trigger, mem, new⟩ | ⟨r, mem, current, isOpen⟩ | ended
      · exact absurd (skips trigger mem) new
      · refine .inr (.inl ⟨r, ?_, current.trans latest.symm, isOpen⟩)
        show r ∈ (p.core.queue.foldl Core.dispatch e).runs
        rw [he]
        exact mem
      · exact Outlook.of_ended h ended turn latest
  · rcases v with renews | ⟨r, mem, current, isOpen⟩ | ended
    · exact .inl (renews.keeps turn.same.1 (kept.imp_right And.left) fun _ h => queue.subset h)
    · rcases turn.survives h.sound mem isOpen with ⟨s, hs, hg, hopen⟩ | concludes
      · exact .inr (.inl ⟨s, hs, hg.trans (current.trans latest.symm), hopen⟩)
      · refine .inr (.inr fun o asks => ?_)
        rw [latest] at asks ⊢
        have asked := h.options_of_asks (asks.of_next h.sound turn (Nat.le_refl _)) mem
          current
        cases concludes with
        | @fails reply failure takes failed =>
            have answered := (h.answered_of_takes mem takes).cons (p, move)
            rw [current, asked] at answered
            exact .inl ⟨reply, failure,
              Past.saw_cons.mpr (.inl ⟨r, mem, current, asked, isOpen⟩), answered, failed⟩
        | superseded _ old => exact absurd current old
        | publishes yields _ output =>
            obtain ⟨reply, shows⟩ := h.shows_of_yields move mem yields
            rw [output, ← asked]
            exact .inr ⟨reply, _, shows⟩
        | quits why =>
            rcases why with hs | ⟨_, hn⟩
            · exact absurd hs (u.runs r mem)
            · exact absurd (h.given ▸ hn) compiler
    · exact Outlook.of_ended h ended turn latest

/-! ## After a start -/

/-- The pipeline was started, whether or not it had been halted before, and has
not been halted since. -/
structure Resumes (past : Past) (c : Core) : Prop where
  unhalted : c.Unhalted
  running : c.loop ≠ .off
  latest : ∀ o, c.latest = some o → past.Asks c c.generation o
  heads : c.Queues ∨ c.queue = [] ∧ past.Asks c c.generation c.wanted

theorem Resumes.next (v : Resumes past p.core) (h : Chronicle environment past p.core)
    (compiler : environment.compiler ≠ none) (turn : p.core.Turn move d)
    (hm : move ≠ .halt) : Resumes ((p, move) :: past) d where
  unhalted := v.unhalted.turn h.sound turn hm
  running := (v.unhalted.loop_turn turn hm).2.2 (.inl v.running)
  latest := Past.latest_next v.latest turn
  heads := by
    have heads := Past.heads_next v.unhalted (h.given ▸ compiler) v.latest
      (v.heads.imp_right fun ⟨hnil, asked⟩ => ⟨hnil, .inr asked⟩) turn hm
    have running := (v.unhalted.loop_turn turn hm).2.2 (.inl v.running)
    exact heads.imp_right fun ⟨hnil, asked⟩ => ⟨hnil, asked.resolve_left running⟩

/-- Where nothing is left to do, what the pipeline heads for is displayed, unless
the compiler failed on it. -/
theorem Resumes.displays_wanted (v : Resumes past c) (outlook : Outlook environment past since c)
    (consumed : c.queue = []) (ended : c.runs = [])
    (succeeds : past.Succeeds since environment) :
    past.Displays environment c.output c.wanted := by
  have asked : past.Asks c c.generation c.wanted := by
    rcases v.heads with ⟨_, hlast, _⟩ | ⟨_, asked⟩
    · rw [consumed] at hlast
      cases hlast
    · exact asked
  rcases outlook with ⟨_, mem, _⟩ | ⟨_, mem, _⟩ | comes
  · rw [consumed] at mem
    cases mem
  · rw [ended] at mem
    cases mem
  · rcases comes _ asked with ⟨reply, failure, saw, answered, failed⟩ | displays
    · obtain ⟨result, ok⟩ := succeeds _ _ _ saw answered
      rw [failed] at ok
      cases ok
    · exact displays

theorem Chronicle.asks_unique (h : Chronicle environment past c) {o' : CompileOptions}
    (asks : past.Asks c g o) (asks' : past.Asks c g o') : o = o' := by
  rcases asks with ⟨r, mem, hg, rfl⟩ | asked
  · exact h.options_of_asks asks' mem hg
  · rcases asks' with ⟨r, mem, hg, rfl⟩ | asked'
    · exact (h.asked.marked asked r mem hg).symm
    · exact h.asked.unique asked asked'

/-- When nothing is going to be displayed, what is displayed already may be what
the pipeline heads for. -/
theorem Resumes.outlook (v : Resumes past c) (h : Chronicle environment past c)
    (bright : c.Renews ∨ c.Runs ∨ past.Displays environment c.output c.wanted) :
    Outlook environment past since c := by
  by_cases renews : c.Renews
  · exact .inl renews
  · rcases bright with hr | runs | displays
    · exact .inl hr
    · exact .inr (.inl runs)
    · refine .inr (.inr fun o asks => .inr ?_)
      have asked : past.Asks c c.generation c.wanted := by
        rcases v.heads with ⟨trigger, hlast, hopt⟩ | ⟨_, asked⟩
        · refine v.latest _ ?_
          rw [← hopt]
          by_contra new
          exact renews ⟨trigger, List.mem_of_getLast? hlast, new⟩
        · exact asked
      rw [h.asks_unique asks asked]
      exact displays

/-! ## What is displayed -/

/-- Whatever the run of the displayed generation asked for is displayed. -/
theorem Chronicle.displays_next (h : Chronicle environment past p.core)
    (displays : ∀ o, past.Asks p.core p.core.output.generation o →
      past.Displays environment p.core.output o)
    (turn : p.core.Turn move d) (o : CompileOptions)
    (asks : Past.Asks ((p, move) :: past) d d.output.generation o) :
    Past.Displays ((p, move) :: past) environment d.output o := by
  by_cases hout : d.output = p.core.output
  · rw [hout] at asks ⊢
    exact (displays o (asks.of_next h.sound turn h.sound.output_le)).cons _
  · obtain ⟨r, mem, result, bundles, yields, current, latest, output⟩ := turn.publishes hout
    obtain ⟨reply, shows⟩ := h.shows_of_yields move mem yields
    rw [output] at asks ⊢
    have before := asks.of_next h.sound turn (Nat.le_of_eq current)
    rw [← h.options_of_asks before mem rfl]
    exact ⟨reply, result, shows⟩

end Past

end Playground
