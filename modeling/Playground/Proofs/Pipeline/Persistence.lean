import Playground.Proofs.Pipeline.Outside
import Playground.Proofs.Pipeline.Publication
import Playground.Proofs.Session.ShareLink

/-!
# The fragment always describes the session

Whoever copies the link of a playground shares the session as it is, at any
time and whatever the compiler is doing. For this the session and the fragment
may only change together, and only two kinds of input change them: loading,
which writes the fragment always, and changing the document, an option or the
view, which writes it when the session comes out different.

The part of a pipeline that is shared is set apart first. It is on the outside, so
all that the control loop, the runs and those who wait do leaves it alone, and what
an input does to it is to adopt one session or none. That the fragment describes
the session is then the round trip of share links, and it does not matter what the
fragment was in the beginning, because the session was read from it.
-/

namespace Playground

/-- What of a pipeline a share link has to do with. -/
structure Shared where
  environment : Environment
  session : Session
  fragment : Fragment.Holder
  encoderWorks : Bool

/-- The part of a pipeline that is shared. -/
def Pipeline.shared (p : Pipeline) : Shared where
  environment := p.environment
  session := p.session
  fragment := p.fragment
  encoderWorks := p.encoderWorks

namespace Shared

/-- Takes over a session and writes it to the fragment. -/
def adopt (s : Shared) (session : Session) : Shared :=
  { s with
    session
    fragment := s.fragment.write (Fragment.encode s.environment.lead session) }

/-- The session that a fragment stands for. -/
def decode (s : Shared) (fragment : Text) : Session :=
  Fragment.decode s.environment.lead s.environment.newSession fragment

/-- The fragment describes the session. -/
def Describes (s : Shared) : Prop :=
  s.decode s.fragment.current = s.session

theorem describes_adopt (s : Shared) (session : Session) :
    (s.adopt session).Describes :=
  Fragment.decode_encode s.environment.lead s.environment.newSession session

end Shared

namespace Pipeline

variable {p q : Pipeline}

/-! ## What leaves the shared part alone -/

/-- Whatever is shared is on the outside. -/
theorem shared_eq_of_outside (h : q.outside = p.outside) : q.shared = p.shared :=
  (congrArg Pipeline.shared h :)

theorem shared_trigger (p : Pipeline) : p.trigger.shared = p.shared :=
  shared_eq_of_outside (outside_trigger p)

theorem shared_publish (p : Pipeline) (run : Run) (result : CompileResult)
    (bundles : List BundleChunk) :
    (p.publish run result bundles).shared = p.shared := by
  obtain ⟨_, h⟩ := publish_frame p run result bundles
  rw [h]
  rfl

theorem Publishes.shared_eq (h : p.Publishes q) : q.shared = p.shared := by
  cases h with
  | intro outside => rw [shared_publish, shared_eq_of_outside outside]

theorem shared_serveRun (p : Pipeline) (generation : Nat) :
    (p.serveRun generation).shared = p.shared :=
  (publishes_or_outside_serveRun p generation).elim Publishes.shared_eq shared_eq_of_outside

theorem shared_serve (h : p.script = []) (job : Job) :
    (p.serve job).shared = p.shared :=
  (publishes_or_outside_serve h job).elim Publishes.shared_eq shared_eq_of_outside

theorem shared_beginHalt (p : Pipeline) : p.beginHalt.shared = p.shared :=
  shared_eq_of_outside (p := p.dropEdit) (outside_beginHalt p)

theorem shared_editDue (h : p.editDue? = some q) : q.shared = p.shared := by
  obtain ⟨⟨source, debouncer⟩, _, rfl⟩ := Option.map_eq_some_iff.mp h
  exact shared_trigger { p with debouncer, settled := source }

theorem shared_answerDue (h : p.answerDue? = some q) : q.shared = p.shared :=
  shared_eq_of_outside (outside_answerDue h)

/-! ## Inputs -/

theorem shared_adopted (p : Pipeline) (session : Session) :
    (p.adopted session).shared = p.shared.adopt session := rfl

theorem shared_edit (p : Pipeline) (source : Text) :
    (p.edit source).1.shared = p.shared ∨ source ≠ p.session.source ∧
      (p.edit source).1.shared = p.shared.adopt { p.session with source } := by
  rcases p.edit_cases source with h | ⟨new, -, h⟩ <;> rw [h]
  · exact .inl rfl
  · exact .inr ⟨new, shared_adopted p _⟩

/-- However many listen to an editor, only the first of their edits can change
the session, because the others are to the same text. -/
theorem shared_typeInto (p : Pipeline) (i : Nat) (source : Text) :
    (p.typeInto i source).1.shared = p.shared ∨ source ≠ p.session.source ∧
      (p.typeInto i source).1.shared = p.shared.adopt { p.session with source } := by
  refine typeInto_rec (motive := fun q : Pipeline => q.shared = p.shared ∨
    source ≠ p.session.source ∧ q.shared = p.shared.adopt { p.session with source })
    p i source (fun _ => .inl rfl) fun q hq => ?_
  rcases hq with hq | ⟨hne, hq⟩
  · have hsession : q.session = p.session := congrArg Shared.session hq
    have hedit := shared_edit q source
    rw [hq, hsession] at hedit
    exact hedit
  · have hsource : source = q.session.source :=
      (congrArg (fun s : Shared => s.session.source) hq).symm
    refine .inr ⟨hne, ?_⟩
    simp only [edit, if_pos hsource]
    exact hq

/-- What is set is the session as it was, or another one that is adopted. -/
theorem shared_setOptions (p : Pipeline) (minify strategy : Option Json)
    (transpile : Option Bool) :
    (p.setOptions minify strategy transpile).1.shared = p.shared ∨
      ∃ session, session ≠ p.session ∧
        (p.setOptions minify strategy transpile).1.shared = p.shared.adopt session := by
  rcases p.setOptions_cases minify strategy transpile with h | ⟨session, -, new, -, h⟩ <;> rw [h]
  · exact .inl rfl
  · exact .inr ⟨session, new, (shared_trigger _).trans (shared_adopted p session)⟩

theorem shared_setView (p : Pipeline) (given : Json) :
    (p.setView given).1.shared = p.shared ∨ ∃ session, session ≠ p.session ∧
      (p.setView given).1.shared = p.shared.adopt session := by
  rcases p.setView_cases given with h | ⟨view, new, -, h⟩ <;> rw [h]
  · exact .inl rfl
  · exact .inr ⟨_, fun he => new (congrArg Session.view he), shared_adopted p _⟩

/-- Loading writes the fragment even when the session stays the same. -/
theorem shared_load (p : Pipeline) (fragment : Text) :
    (p.load fragment).1.shared =
      if p.encoderWorks then p.shared.adopt (p.shared.decode fragment)
      else p.shared := by
  rcases p.load_cases fragment with ⟨broken, h⟩ | ⟨works, h⟩ <;> rw [h]
  · rw [if_neg (Bool.eq_false_iff.mp broken)]
  · rw [if_pos works]
    exact (shared_trigger _).trans (shared_adopted p _)

end Pipeline

/-! ## What a move does to the shared part -/

/-- Whether a move loads a fragment. -/
def Move.loads : Move → Bool
  | .act (.load _) | .act .reload => true
  | _ => false

/-- Whether a move may change the document, an option or the view. -/
def Move.changes : Move → Bool
  | .act (.edit _) | .act (.setOptions ..) | .act (.setView _) | .act (.type ..) => true
  | _ => false

/-- What a move does to the shared part. -/
inductive Shared.Turn (s : Shared) (move : Move) : Shared → Prop where
  /-- Loading does nothing only when the encoder is broken. -/
  | still (broken : move.loads = true → s.encoderWorks = false) : Turn s move s
  | loads (session : Session) (load : move.loads = true) :
      Turn s move (s.adopt session)
  | changes (session : Session) (change : move.changes = true)
      (new : session ≠ s.session) : Turn s move (s.adopt session)
  | encoder (works : Bool) (set : move = .act (.setEncoder works)) :
      Turn s move { s with encoderWorks := works }

namespace Pipeline

variable {p q : Pipeline}

theorem turn_of_eq {move : Move} (h : q.shared = p.shared) (other : move.loads = false) :
    p.shared.Turn move q.shared :=
  h ▸ .still fun load => absurd (other.symm.trans load) (by simp)

theorem turn_of_change {move : Move} (change : move.changes = true)
    (other : move.loads = false) (h : q.shared = p.shared ∨
      ∃ session, session ≠ p.session ∧ q.shared = p.shared.adopt session) :
    p.shared.Turn move q.shared := by
  rcases h with h | ⟨session, new, h⟩
  · exact turn_of_eq h other
  · exact h ▸ .changes session change new

theorem turn_of_load {move : Move} (load : move.loads = true) (fragment : Text) :
    p.shared.Turn move (p.load fragment).1.shared := by
  rw [shared_load]
  split
  · exact .loads _ load
  · next broken => exact .still fun _ => Bool.eq_false_iff.mpr broken

theorem shared_act (p : Pipeline) (action : Action) :
    p.shared.Turn (.act action) (p.act action).1.shared := by
  have edited {q : Pipeline} {source : Text} (h : q.shared = p.shared ∨
      source ≠ p.session.source ∧
        q.shared = p.shared.adopt { p.session with source }) :
      q.shared = p.shared ∨
        ∃ session, session ≠ p.session ∧ q.shared = p.shared.adopt session :=
    h.imp_right fun ⟨hne, h⟩ => ⟨_, fun he => hne (congrArg Session.source he), h⟩
  cases action with
  | edit source => exact turn_of_change rfl rfl (edited (shared_edit p source))
  | type editor source =>
      exact turn_of_change rfl rfl (edited (shared_typeInto p editor source))
  | setOptions minify strategy transpile =>
      exact turn_of_change rfl rfl (shared_setOptions p minify strategy transpile)
  | setView given => exact turn_of_change rfl rfl (shared_setView p given)
  | load fragment => exact turn_of_load rfl fragment
  | reload => exact turn_of_load rfl p.fragment.current
  | setEncoder works => exact .encoder works rfl
  | start =>
      refine turn_of_eq (q := p.start) ?_ rfl
      rcases p.start_cases with ⟨-, h⟩ | ⟨-, h⟩ <;> rw [h]
      exact (shared_trigger _).trans rfl
  | answerCompiler call reply =>
      exact turn_of_eq (shared_eq_of_outside (outside_answerCompiler p call reply)) rfl
  | answerEngine call engineRun =>
      exact turn_of_eq (shared_eq_of_outside (outside_answerEngine p call engineRun)) rfl
  | stop | attach | wait | subscribe | unsubscribe | read =>
      exact turn_of_eq (q := p) rfl rfl

/-- A move does one of the things in the list. Only actions do anything. -/
theorem shared_turn (h : p.script = []) (move : Move) :
    p.shared.Turn move (p.after move).shared := by
  cases move with
  | act action => exact shared_act p action
  | halt =>
      refine turn_of_eq ?_ rfl
      simp only [after]
      split
      · rw [proceed]
        split <;> exact shared_beginHalt p
      · rfl
  | job =>
      refine turn_of_eq ?_ rfl
      simp only [after]
      split
      · rfl
      · next job jobs _ => exact shared_serve (p := { p with jobs }) h job
  | editDue =>
      refine turn_of_eq ?_ rfl
      rw [after]
      cases hdue : p.editDue? with
      | none => rfl
      | some q => exact shared_editDue hdue
  | answerDue =>
      refine turn_of_eq ?_ rfl
      rw [after]
      cases hdue : p.answerDue? with
      | none => rfl
      | some q => exact shared_answerDue hdue
  | clock now => exact turn_of_eq rfl rfl

end Pipeline

namespace Shared

variable {s t : Shared} {move : Move}

theorem Turn.works (turn : s.Turn move t) (works : s.encoderWorks = true)
    (unbroken : move ≠ .act (.setEncoder false)) : t.encoderWorks = true := by
  cases turn with
  | still | loads | changes => exact works
  | encoder mended set =>
      cases mended with
      | true => rfl
      | false => exact absurd set unbroken

theorem Describes.turn (h : s.Describes) (turn : s.Turn move t) : t.Describes := by
  cases turn with
  | still | encoder => exact h
  | loads session | changes session => exact describes_adopt s session

theorem changes_of_loads (h : move.loads = true) : move.changes = false := by
  unfold Move.loads at h
  split at h
  · rfl
  · rfl
  · cases h

/-- A move writes the fragment when it loads one, and when it is a change after
which the session is another. -/
theorem Turn.writes_eq (turn : s.Turn move t) (works : s.encoderWorks = true) :
    t.fragment.writes = s.fragment.writes + ((if move.loads then 1 else 0) +
      if move.changes && decide (t.session ≠ s.session) then 1 else 0) := by
  cases turn with
  | still broken =>
      have hl : move.loads = false :=
        Bool.eq_false_iff.mpr fun h => absurd (works.symm.trans (broken h)) (by simp)
      simp [hl]
  | loads session load => simp [adopt, Fragment.Holder.write, load, changes_of_loads load]
  | changes session change new =>
      have hl : move.loads = false :=
        Bool.eq_false_iff.mpr fun h =>
          absurd (change.symm.trans (changes_of_loads h)) (by simp)
      simp [adopt, Fragment.Holder.write, change, hl, new]
  | encoder mended set => simp [set, Move.loads]

end Shared

/-! ## Courses -/

namespace Pipeline

variable {environment : Environment} {window : Int} {fragment : Text}
  {p : Pipeline}

theorem shared_follow_turn (h : new environment window fragment = .ok p)
    (move : Move) (moves : List Move) :
    (p.follow moves).shared.Turn move (p.follow (move :: moves)).shared :=
  shared_turn (chronicle_follow h moves).script move

theorem describes_follow (h : new environment window fragment = .ok p)
    (moves : List Move) : (p.follow moves).shared.Describes := by
  induction moves with
  | nil =>
      obtain ⟨_, _, rfl⟩ := new_eq_ok h
      rfl
  | cons move before ih => exact ih.turn (shared_follow_turn h move before)

theorem encoderWorks_follow (h : new environment window fragment = .ok p)
    {moves : List Move} (unbroken : .act (.setEncoder false) ∉ moves) :
    (p.follow moves).encoderWorks = true := by
  induction moves with
  | nil =>
      obtain ⟨_, _, rfl⟩ := new_eq_ok h
      rfl
  | cons move before ih =>
      exact (shared_follow_turn h move before).works
        (ih (List.not_mem_of_not_mem_cons unbroken))
        (List.ne_of_not_mem_cons unbroken).symm

/-- Whatever the fragment was in the beginning, and whatever the compiler and the
engine do, the fragment stands for the session after every move. As long as
nobody breaks the encoder, it has been written once for each load, and once for
each change of the document, an option or the view after which the session was
another. -/
theorem fragment_describes_session (h : new environment window fragment = .ok p)
    (moves : List Move) :
    let q := p.follow moves
    Fragment.decode environment.lead environment.newSession q.fragment.current =
        q.session ∧
      (.act (.setEncoder false) ∉ moves →
        q.fragment.writes = moves.countP Move.loads +
          (p.past moves).countP fun (before, move) =>
            move.changes && decide ((before.after move).session ≠ before.session)) := by
  intro q
  have given : q.shared.environment = environment := (chronicle_follow h moves).given
  refine ⟨?_, fun unbroken => ?_⟩
  · have describes : q.shared.Describes := describes_follow h moves
    unfold Shared.Describes Shared.decode at describes
    rw [given] at describes
    exact describes
  · induction moves with
    | nil =>
        obtain ⟨_, _, rfl⟩ := new_eq_ok h
        rfl
    | cons move before ih =>
        have unbroken' := List.not_mem_of_not_mem_cons unbroken
        have written := (shared_follow_turn h move before).writes_eq
          (encoderWorks_follow h unbroken')
        have earlier : (p.follow before).shared.fragment.writes = _ :=
          ih (chronicle_follow h before).given unbroken'
        rw [earlier] at written
        rw [past, List.countP_cons, List.countP_cons]
        exact Eq.trans written (Nat.add_add_add_comm _ _ _ _)

/-- A fragment that cannot be read, then an edit, a view that is selected twice,
and a load of the fragment as it is: all but the second selection are written. -/
theorem fragment_describes_session_after_reload :
    ∃ p, new .prompt 0 (text "#%%%garbage") = .ok p ∧
      let q := p.follow [.act .reload, .act (.setView (.str (text "bundles"))),
        .act (.setView (.str (text "bundles"))), .act (.edit (text "a")), .act .start]
      Fragment.decode Environment.prompt.lead Environment.prompt.newSession
        q.fragment.current = q.session ∧ q.fragment.writes = 3 := by
  refine ⟨_, rfl, ?_⟩
  obtain ⟨describes, written⟩ := @fragment_describes_session .prompt 0
    (text "#%%%garbage") _ rfl [.act .reload, .act (.setView (.str (text "bundles"))),
      .act (.setView (.str (text "bundles"))), .act (.edit (text "a")), .act .start]
  exact ⟨describes, (written (by simp)).trans (by decide +kernel)⟩

end Pipeline

end Playground
