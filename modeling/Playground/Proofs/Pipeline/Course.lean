import Playground.Pipeline.Actions

/-!
# What can happen to a pipeline, in any order

A pipeline is at the mercy of three parties: those who act on it, its
collaborators who answer when they like, and the line of jobs that it works
off by itself. A course lets the three take turns in every order. A user may
act while jobs are still in line, a timer may fire before them, and an answer
may come after any number of other things.

A course is written latest move first, because everything here is proved by
looking at the last move and leaving the rest to the induction. Nothing is
assumed about the clock, not even that it goes forward.

The past is what the claims about a course speak of: the moves that were made,
each with the pipeline as the move met it. What a run asked and what it was
answered is read off the past, and not off the pipeline, which forgets both.
-/

namespace Playground

/-- What can happen to a pipeline next. -/
inductive Move where
  /-- Someone acts. To halt the pipeline is a move of its own. -/
  | act (action : Action)
  /-- Someone begins to halt the pipeline. -/
  | halt
  /-- The first job in line is done. -/
  | job
  /-- The edit that is held back is given out, if it is due. -/
  | editDue
  /-- A run gets its answer, if one is due. -/
  | answerDue
  /-- The clock moves. -/
  | clock (now : Nat)

/-- The moves of a course, the latest first, each with the pipeline it met. -/
abbrev Past := List (Pipeline × Move)

namespace Pipeline

/-- The pipeline after a move. A move that cannot be made changes nothing, and
that includes halting a pipeline that is being halted. -/
def after (p : Pipeline) : Move → Pipeline
  | .act action => (p.act action).1
  | .halt => if p.halt.isNone then p.proceed [.stop] else p
  | .job =>
    match p.jobs with
    | [] => p
    | job :: jobs => { p with jobs }.serve job
  | .editDue => p.editDue?.getD p
  | .answerDue => p.answerDue?.getD p
  | .clock now => { p with now }

theorem after_job {p : Pipeline} {job : Job} {jobs : List Job} (line : p.jobs = job :: jobs) :
    p.after .job = { p with jobs }.serve job := by
  simp only [after, line]

/-- The pipeline after some moves, the latest of which comes first. -/
def follow (p : Pipeline) : List Move → Pipeline
  | [] => p
  | move :: before => (p.follow before).after move

/-- The past of a pipeline after some moves, the latest of which comes first. -/
def past (p : Pipeline) : List Move → Past
  | [] => []
  | move :: before => (p.follow before, move) :: p.past before

/-- A new pipeline holds the session of the fragment, and nothing has happened. -/
theorem new_eq_ok {environment : Environment} {window : Int} {fragment : Text}
    {p : Pipeline} (h : new environment window fragment = .ok p) :
    ∃ debouncer : Debouncer Text Nat, debouncer.held = none ∧
      let session := Fragment.decode environment.lead environment.newSession fragment
      p = {
        environment
        session
        settled := session.source
        debouncer
        fragment := { current := fragment } } := by
  unfold new Debouncer.ofWindow at h
  cases window with
  | ofNat window => cases h; exact ⟨_, rfl, rfl⟩
  | negSucc => cases h

theorem map_snd_past (p : Pipeline) (moves : List Move) :
    (p.past moves).map Prod.snd = moves := by
  induction moves with
  | nil => rfl
  | cons move before ih => rw [past, List.map_cons, ih]

end Pipeline

/-! ## What comes by itself is a course

Settling and letting time pass are what a pipeline does between two visits. Both
are courses in which nobody acts, so whatever holds along every course holds
there too.
-/

/-- Whether a move comes by itself. -/
def Move.isOwn : Move → Bool
  | .act _ | .halt => false
  | .job | .editDue | .answerDue | .clock _ => true

namespace Pipeline

theorem follow_append (p : Pipeline) (later before : List Move) :
    p.follow (later ++ before) = (p.follow before).follow later := by
  induction later with
  | nil => rfl
  | cons move later ih => rw [List.cons_append, follow, ih, follow]

/-- A step is a move. -/
theorem step?_eq_after {p q : Pipeline} (h : p.step? = some q) :
    ∃ move : Move, move.isOwn = true ∧ p.after move = q := by
  unfold step? at h
  split at h
  · next job jobs hjobs =>
      refine ⟨.job, rfl, ?_⟩
      simp only [after, hjobs]
      exact Option.some.inj h
  · cases hedit : p.editDue? with
    | none =>
        rw [hedit] at h
        have hanswer : p.answerDue? = some q := h
        exact ⟨.answerDue, rfl, by rw [after, hanswer, Option.getD_some]⟩
    | some r =>
        rw [hedit] at h
        exact ⟨.editDue, rfl, by rw [after, hedit, Option.getD_some, Option.some.inj h]⟩

theorem settleWithin_eq_follow (limit : Nat) (p : Pipeline) :
    ∃ moves : List Move, (∀ move ∈ moves, move.isOwn = true) ∧
      Clockwork.settleWithin limit p = p.follow moves := by
  induction limit generalizing p with
  | zero => exact ⟨[], by simp, rfl⟩
  | succ limit ih =>
      rw [Clockwork.settleWithin]
      split
      · exact ⟨[], by simp, rfl⟩
      · next q hq =>
          obtain ⟨move, hmove, rfl⟩ := step?_eq_after hq
          obtain ⟨moves, own, hsettle⟩ := ih (p.after move)
          refine ⟨moves ++ [move], ?_, hsettle.trans (follow_append p moves [move]).symm⟩
          simpa [or_imp, forall_and] using ⟨own, hmove⟩

theorem settle_eq_follow (time : Nat) (p : Pipeline) :
    ∃ moves : List Move, (∀ move ∈ moves, move.isOwn = true) ∧
      Clockwork.settle (Clockwork.setNow time p) = p.follow moves := by
  obtain ⟨moves, own, hsettle⟩ :=
    settleWithin_eq_follow Clockwork.patience (p.after (.clock time))
  refine ⟨moves ++ [.clock time], ?_, ?_⟩
  · simpa [or_imp, forall_and] using ⟨own, rfl⟩
  · rw [follow_append]
    exact hsettle

theorem passWithin_eq_follow (limit target : Nat) (p : Pipeline) :
    ∃ moves : List Move, (∀ move ∈ moves, move.isOwn = true) ∧
      Clockwork.passWithin limit target p = p.follow moves := by
  induction limit generalizing p with
  | zero => exact settle_eq_follow target p
  | succ limit ih =>
      cases hdue : Clockwork.due? p with
      | none =>
          rw [Clockwork.passWithin.eq_def, hdue]
          exact settle_eq_follow target p
      | some t =>
          rw [Clockwork.passWithin.eq_def, hdue]
          simp only []
          split
          · obtain ⟨first, hfirst, hs⟩ := settle_eq_follow t p
            obtain ⟨moves, own, hpass⟩ := ih (p.follow first)
            refine ⟨moves ++ first, fun move hm => ?_, ?_⟩
            · exact (List.mem_append.mp hm).elim (own move) (hfirst move)
            · rw [hs, hpass, follow_append]
          · exact settle_eq_follow target p

/-- However much time passes, what happens meanwhile is a course. -/
theorem pass_eq_follow (ms : Nat) (p : Pipeline) :
    ∃ moves : List Move, (∀ move ∈ moves, move.isOwn = true) ∧
      Clockwork.pass ms p = p.follow moves :=
  passWithin_eq_follow Clockwork.patience (Clockwork.now p + ms) p

end Pipeline

/-! ## What the past tells of a run -/

namespace Past

/-- At some step the run of a generation was seen, under these circumstances:
the move that was made, the options of the run, and how far it was. -/
def Saw (past : Past) (event : Move → CompileOptions → Stage → Prop)
    (generation : Nat) : Prop :=
  ∃ step ∈ past, ∃ run ∈ step.1.runs,
    run.generation = generation ∧ event step.2 run.options run.stage

/-- The run of a generation asked for these options. -/
def Asked (past : Past) (generation : Nat) (options : CompileOptions) : Prop :=
  past.Saw (fun _ asked _ => asked = options) generation

/-- Someone answered the call to the compiler that the run waited for. -/
def Told (past : Past) (generation : Nat) (reply : CompilerReply) : Prop :=
  past.Saw (fun move _ stage => ∃ call, move = .act (.answerCompiler call reply) ∧
    stage = .compiling (.held call)) generation

/-- Someone answered the call to the engine, about this result, that the run
waited for. -/
def Handed (past : Past) (generation : Nat) (result : CompileResult)
    (engineRun : EngineRun) : Prop :=
  past.Saw (fun move _ stage => ∃ call, move = .act (.answerEngine call engineRun) ∧
    stage = .bundling result (.held call)) generation

/-- What the compiler answers to the run of a generation. A compiler that
answers by itself answers to the options. One that is told from outside answers
when someone answers the call. -/
inductive Answered (past : Past) (environment : Environment) (generation : Nat)
    (options : CompileOptions) (reply : CompilerReply) : Prop where
  | atOnce {compiler : CompileOptions → Answer CompilerReply}
      (given : environment.compiler = some compiler)
      (answer : compiler options = .atOnce reply)
  | after {compiler : CompileOptions → Answer CompilerReply} {ms : Nat}
      (given : environment.compiler = some compiler)
      (answer : compiler options = .after ms reply)
  | told {compiler : CompileOptions → Answer CompilerReply}
      (given : environment.compiler = some compiler)
      (answer : compiler options = .onRequest) (told : past.Told generation reply)

/-- What the engine makes of the modules of a run's result, told in the same
two ways. -/
inductive Built (past : Past) (environment : Environment) (generation : Nat)
    (result : CompileResult) (engineRun : EngineRun) : Prop where
  | atOnce (answer : environment.engine result.modules = .atOnce engineRun)
  | after {ms : Nat}
      (answer : environment.engine result.modules = .after ms engineRun)
  | told (answer : environment.engine result.modules = .onRequest)
      (told : past.Handed generation result engineRun)

variable {past : Past} {environment : Environment} {generation : Nat}

theorem Saw.cons {event : Move → CompileOptions → Stage → Prop}
    (h : past.Saw event generation) (step : Pipeline × Move) :
    Saw (step :: past) event generation := by
  obtain ⟨s, hs, rest⟩ := h
  exact ⟨s, List.mem_cons_of_mem _ hs, rest⟩

theorem Answered.cons {options : CompileOptions} {reply : CompilerReply}
    (h : Answered past environment generation options reply)
    (step : Pipeline × Move) :
    Answered (step :: past) environment generation options reply := by
  cases h with
  | atOnce given answer => exact .atOnce given answer
  | after given answer => exact .after given answer
  | told given answer told => exact .told given answer (told.cons step)

theorem Built.cons {result : CompileResult} {engineRun : EngineRun}
    (h : Built past environment generation result engineRun)
    (step : Pipeline × Move) :
    Built (step :: past) environment generation result engineRun := by
  cases h with
  | atOnce answer => exact .atOnce answer
  | after answer => exact .after answer
  | told answer told => exact .told answer (told.cons step)

end Past

end Playground
