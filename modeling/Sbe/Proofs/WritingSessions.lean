import Sbe.Proofs.Enclosure
import Sbe.Proofs.Reading

/-!
**Sessions that write.**

A session that writes a message is a run of a writer: the writer puts the header, makes the accesses
of the steps, and steps into groups and out of them again. So what is known of runs is known of
sessions, in which a refusal is an entry like any other.

* `Writes`: the steps that write, and the orderly ones, which take a repetition of a group before
  they do anything else there;
* `Traced`, `traced_of_writes`: work of a session that is a run of a writer;
* `reaches_of_message`: whole sessions;
* `session_stays_inside`: what a session leaves of the buffer;
* `eq_of_step_refused`, `session_without_refusals`: refused steps leave everything as it was, and a
  session leaves what a run leaves in which nothing is refused.
-/

namespace Sbe.Codec

namespace Writer

/-- A step that writes: it makes an access, takes a repetition, or opens a group with a count and
writes in it. An orderly one takes a repetition of each group before it does anything else there. -/
inductive Writes (orderly : Bool) : Step → Prop
  | access (access : Access) : Writes orderly access.step
  | next : Writes orderly .next
  | group {name : String} {count : Nat} {inner : List Step}
      (each : ∀ step ∈ inner, Writes orderly step)
      (first : orderly = true → inner = [] ∨ 0 < count ∧ ∃ rest, inner = .next :: rest) :
      Writes orderly (.group name (some count) inner)

/-- A writer that comes of another by some run, without premature operations if it is to be
orderly. -/
def Reaches (orderly : Bool) (before after : Writer) : Prop :=
  ∃ operations, before.performAll operations = some after ∧
    (orderly = true → before.isTimely operations = true)

variable {orderly : Bool}

namespace Reaches

variable {before middle after : Writer}

theorem refl (orderly : Bool) (writer : Writer) : Reaches orderly writer writer :=
  ⟨[], rfl, fun _ => rfl⟩

theorem head {operation : Operation} {outcome : Outcome CodecError Unit}
    (ended : before.perform operation = (outcome, middle)) (going : outcome ≠ .error .fault)
    (early : orderly = true → before.isPremature operation = false)
    (onward : Reaches orderly middle after) : Reaches orderly before after := by
  obtain ⟨operations, ran, timely⟩ := onward
  refine ⟨operation :: operations, ?_, fun ordered => ?_⟩
  · rw [performAll, ended]
    cases outcome with
    | ok => exact ran
    | error halt =>
      cases halt with
      | refused cause => exact ran
      | fault => exact absurd rfl going
  · rw [isTimely, early ordered, ended]
    exact timely ordered

theorem one {operation : Operation} {outcome : Outcome CodecError Unit}
    (ended : before.perform operation = (outcome, after)) (going : outcome ≠ .error .fault)
    (early : orderly = true → before.isPremature operation = false) :
    Reaches orderly before after :=
  head ended going early (refl orderly after)

theorem trans (first : Reaches orderly before middle) (second : Reaches orderly middle after) :
    Reaches orderly before after := by
  obtain ⟨operations, ran, timely⟩ := first
  induction operations generalizing before with
  | nil =>
    cases ran
    exact second
  | cons operation rest ih =>
    rw [performAll] at ran
    split at ran
    · cases ran
    · rename_i outcome next going ended
      have both (ordered : orderly = true) := timely ordered
      simp only [isTimely, Bool.and_eq_true, Bool.not_eq_true', ended] at both
      exact head ended going (fun ordered => (both ordered).1)
        (ih ran fun ordered => (both ordered).2)

end Reaches

/-! ### Work on an element -/

/-- Work of a session on an element that is a run of a writer which stands there. Where it is to be
orderly, the element is no group that waits for its first repetition, before or after it. -/
def Traced (orderly : Bool) (work : Session Element) (element : Element) : Prop :=
  ∀ ⦃record last after⦄ (around : List Element), work.run.run record = (some last, after) →
    (orderly = true → element.isWaiting = false) →
    Reaches orderly ⟨record.wire, element, around⟩ ⟨after.wire, last, around⟩ ∧
      (orderly = true → last.isWaiting = false)

theorem traced_pure (element : Element) : Traced orderly (pure element) element := by
  intro record last after around ran ready
  cases ran
  exact ⟨.refl orderly _, ready⟩

theorem traced_access (access : Access) (element : Element) :
    Traced orderly (Session.step access.step element) element := by
  intro record last after around ran ready
  rw [access.step_eq] at ran
  obtain ⟨_, middle, gave, done⟩ := Session.run_bind_eq_some ran
  cases done
  obtain ⟨outcome, ended, going⟩ := Session.run_give_eq_some gave
  refine ⟨.one (perform_access around ended) ?_ fun ordered => ?_, ready⟩
  · cases outcome with
    | ok datum => intro fault; cases fault
    | error halt =>
      intro fault
      cases fault
      exact going rfl
  · show (access.sets element && element.isWaiting) = false
    rw [ready ordered, Bool.and_false]

/-- A step to the next repetition moves on from the start of a group, or leaves the group as it
is at its end. -/
theorem reaches_of_next {shape : GroupShape} {view : GroupView} {last : Element}
    {record after : Record} (around : List Element)
    (ran : (Session.step .next (.group shape view)).run.run record = (some last, after)) :
    Reaches orderly ⟨record.wire, .group shape view, around⟩ ⟨after.wire, last, around⟩ ∧
      (last.isWaiting = false ∨ last = .group shape view ∧ view.count ≤ view.taken) := by
  rw [Session.step_next] at ran
  obtain ⟨result, middle, ended, kept⟩ := Session.run_bind_eq_some ran
  rcases Session.run_perform_eq_some ended with ⟨moved, went, rfl⟩ | ⟨cause, refused, rfl⟩
  · cases kept
    have moves : GroupView.advance.run (view, record.wire) = (.ok (), moved, middle.wire) := by
      rw [GroupView.run_advance_of_next, went]
    refine ⟨.one (perform_next around moves) ?_ fun _ => rfl, .inl ?_⟩
    · intro fault
      cases fault
    · rw [(GroupView.run_next_eq_ok went).1]
      rfl
  · cases kept
    have stays : GroupView.advance.run (view, record.wire) =
        (.error (.refused cause), view, after.wire) := by
      rw [GroupView.run_advance_of_next, refused]
    refine ⟨.one (perform_next around stays) ?_ fun _ => rfl, .inr ⟨rfl, ?_⟩⟩
    · intro fault
      cases fault
    · by_contra more
      exact GroupView.next_firm (Nat.not_le.mp more) _ _ _ refused

theorem traced_next (element : Element) :
    Traced orderly (Session.step .next element) element := by
  cases element with
  | message view => exact traced_pure (.message view)
  | group shape view =>
    intro record last after around ran ready
    obtain ⟨reached, moved | ⟨rfl, _⟩⟩ := reaches_of_next around ran
    · exact ⟨reached, fun _ => moved⟩
    · exact ⟨reached, ready⟩

theorem traced_steps {taken : List Step}
    (each : ∀ step ∈ taken, ∀ element, Traced orderly (Session.step step element) element)
    (element : Element) : Traced orderly (Session.steps taken element) element := by
  induction taken generalizing element with
  | nil => exact traced_pure element
  | cons step rest ih =>
    intro record last after around ran ready
    obtain ⟨first, later⟩ := List.forall_mem_cons.mp each
    rw [Session.steps] at ran
    obtain ⟨next, middle, early, late⟩ := Session.run_bind_eq_some ran
    obtain ⟨reached, onward⟩ := first element around early ready
    obtain ⟨further, settled⟩ := ih later next around late onward
    exact ⟨reached.trans further, settled⟩

/-- Steps inside a group that has just been opened. -/
theorem reaches_of_opened {inner : List Step} {shape : GroupShape} {view : GroupView}
    (each : ∀ step ∈ inner, ∀ element, Traced orderly (Session.step step element) element)
    (untaken : view.taken = 0)
    (first : orderly = true → inner = [] ∨ 0 < view.count ∧ ∃ rest, inner = .next :: rest)
    {last : Element} {record after : Record} (around : List Element)
    (ran : (Session.steps inner (.group shape view)).run.run record = (some last, after)) :
    Reaches orderly ⟨record.wire, .group shape view, around⟩ ⟨after.wire, last, around⟩ := by
  by_cases ordered : orderly = true
  · rcases first ordered with rfl | ⟨some, rest, rfl⟩
    · cases ran
      exact .refl orderly _
    · -- The repetition is there, so the group no longer waits when the other steps are taken.
      rw [Session.steps] at ran
      obtain ⟨next, middle, early, late⟩ := Session.run_bind_eq_some ran
      obtain ⟨reached, moved | ⟨_, none⟩⟩ := reaches_of_next around early
      · have later := (List.forall_mem_cons.mp each).2
        exact reached.trans (traced_steps later next around late fun _ => moved).1
      · omega
  · exact (traced_steps each _ around ran fun yes => absurd yes ordered).1

theorem traced_group {name : String} {count : Nat} {inner : List Step}
    (each : ∀ step ∈ inner, ∀ element, Traced orderly (Session.step step element) element)
    (first : orderly = true → inner = [] ∨ 0 < count ∧ ∃ rest, inner = .next :: rest)
    (element : Element) :
    Traced orderly (Session.step (.group name (some count) inner) element) element := by
  intro record last after around ran ready
  rw [Session.step] at ran
  split at ran
  · cases ran
    exact ⟨.refl orderly _, ready⟩
  · rename_i shape found
    obtain ⟨result, middle, ended, kept⟩ := Session.run_bind_eq_some ran
    rcases Session.run_perform_eq_some ended with ⟨view, opened, rfl⟩ | ⟨cause, refused, rfl⟩
    · -- The group is opened, its steps are taken inside it, and it is closed.
      change (shape.openWrite count).run record.wire = _ at opened
      have performed : (Writer.mk record.wire element around).perform (.openGroup name count) =
          (.ok (), ⟨middle.wire, .group shape view, element :: around⟩) := by
        simp only [perform, openGroup, found, act, opened]
      obtain ⟨_, _, asked, kept⟩ := Session.run_bind_eq_some kept
      cases asked
      obtain ⟨_, _, noted, kept⟩ := Session.run_bind_eq_some kept
      cases noted
      obtain ⟨inmost, left, stepped, kept⟩ := Session.run_bind_eq_some kept
      cases kept
      obtain ⟨rfl, _⟩ := GroupShape.run_openWrite_eq_ok opened
      have inside := reaches_of_opened each rfl first (element :: around) stepped
      have closed : (Writer.mk left.wire inmost (element :: around)).perform .close =
          (.ok (), ⟨left.wire, element, around⟩) := rfl
      refine ⟨.head performed ?_ (fun _ => rfl) (inside.trans (.one closed ?_ fun _ => rfl)), ready⟩
      · intro fault
        cases fault
      · intro fault
        cases fault
    · cases kept
      change (shape.openWrite count).run record.wire = _ at refused
      have performed : (Writer.mk record.wire element around).perform (.openGroup name count) =
          (.error (.refused cause), ⟨after.wire, element, around⟩) := by
        simp only [perform, openGroup, found, act, refused]
      refine ⟨.one performed ?_ fun _ => rfl, ready⟩
      intro fault
      cases fault

/-- Every step that writes is a run of a writer. -/
theorem traced_of_writes {step : Step} (writes : Writes orderly step) (element : Element) :
    Traced orderly (Session.step step element) element := by
  induction writes generalizing element with
  | access access => exact traced_access access element
  | next => exact traced_next element
  | group each first ih => exact traced_group ih first element

/-! ### Whole sessions -/

variable {shape : MessageShape} {buffer : Buffer} {taken : List Step} {after : Record}

/-- A session that writes a message is a run of the writer that has put its header. -/
theorem reaches_of_message (writes : ∀ step ∈ taken, Writes orderly step)
    (ran : (Session.message (shape.openWithHeader 0) taken).run.run
      { wire := MessageShape.fresh buffer } = (some (), after)) :
    ∃ started last, start? shape buffer = some started ∧
      Reaches orderly started ⟨after.wire, last, []⟩ := by
  rw [Session.message] at ran
  obtain ⟨result, middle, ended, kept⟩ := Session.run_bind_eq_some ran
  rcases Session.run_perform_eq_some ended with ⟨view, opened, rfl⟩ | ⟨cause, refused, rfl⟩
  · obtain ⟨_, _, asked, kept⟩ := Session.run_bind_eq_some kept
    cases asked
    obtain ⟨_, _, noted, kept⟩ := Session.run_bind_eq_some kept
    cases noted
    obtain ⟨last, left, stepped, kept⟩ := Session.run_bind_eq_some kept
    cases kept
    have written := traced_steps (fun step known => traced_of_writes (writes step known))
      (.message view) [] stepped fun _ => rfl
    refine ⟨⟨middle.wire, .message view, []⟩, last, ?_, written.1⟩
    rw [start?, opened]
  · exact absurd refused (shape.openWithHeader_firm 0 _ _ _)

/-- **A session that writes stays inside its message.** The bytes from the limit on stay as they
were, and the version of the header stays readable. The whole header does, if the session is
orderly. -/
theorem session_stays_inside (packed : shape.Packed) (fits : shape.header.Fits)
    (writes : ∀ step ∈ taken, Writes orderly step)
    (ran : (Session.message (shape.openWithHeader 0) taken).run.run
      { wire := MessageShape.fresh buffer } = (some (), after)) :
    after.wire.buffer.capacity = buffer.capacity ∧
    after.wire.buffer.toList.drop after.wire.cursor.limit =
      buffer.toList.drop after.wire.cursor.limit ∧
    ∃ header, (Header.read 0).run after.wire = (.ok header, after.wire) ∧
      header.version = shape.version ∧ (orderly = true → header = shape.header) := by
  obtain ⟨started, last, start, operations, performed, timely⟩ := reaches_of_message writes ran
  obtain ⟨capacity, rest, header, read, version, whole⟩ :=
    performAll_stays_inside packed fits start performed
  exact ⟨capacity, rest, header, read, version, fun ordered => whole (timely ordered)⟩

/-- **A refused step leaves everything as it was**: the bytes, the limit and the place in the
message. -/
theorem eq_of_step_refused {step : Step} (writes : Writes orderly step) {element last : Element}
    {record : Record} {cause : CodecError} {limit : Nat}
    (ran : (Session.step step element).run.run record = (some last, after))
    (refused : after.entries = .refused cause limit :: record.entries) :
    after.wire = record.wire ∧ last = element := by
  cases writes with
  | access access =>
    rw [access.step_eq, Session.give, bind_assoc] at ran
    obtain ⟨result, middle, ended, kept⟩ := Session.run_bind_eq_some ran
    have confined : Confined _ _ (access.work element) :=
      access.confined fun _ => ⟨Nat.le_refl _, Nat.le_refl _⟩
    rcases Session.run_perform_cases ended with
      ⟨datum, wire, _, rfl, rfl⟩ | ⟨_, wire, stopped, rfl, rfl⟩
    · cases kept
      cases refused
    · cases kept
      exact ⟨confined.refused stopped, rfl⟩
  | next =>
    cases element with
    | message view =>
      cases ran
      exact absurd refused.symm (List.cons_ne_self _ _)
    | group shape view =>
      rw [Session.step_next] at ran
      obtain ⟨result, middle, ended, kept⟩ := Session.run_bind_eq_some ran
      rcases Session.run_perform_cases ended with
        ⟨moved, wire, _, rfl, rfl⟩ | ⟨_, wire, stopped, rfl, rfl⟩
      · cases kept
        cases refused
      · cases kept
        exact ⟨(view.next_confined 0 0).refused stopped, rfl⟩
  | @group name count inner each first =>
    rw [Session.step] at ran
    split at ran
    · cases ran
      exact absurd refused.symm (List.cons_ne_self _ _)
    · rename_i shape found
      obtain ⟨result, middle, ended, kept⟩ := Session.run_bind_eq_some ran
      rcases Session.run_perform_cases ended with
        ⟨view, wire, _, rfl, rfl⟩ | ⟨_, wire, stopped, rfl, rfl⟩
      · -- A group that was opened has the entry of its end last.
        obtain ⟨_, _, asked, kept⟩ := Session.run_bind_eq_some kept
        cases asked
        obtain ⟨_, _, noted, kept⟩ := Session.run_bind_eq_some kept
        cases noted
        obtain ⟨inmost, left, _, kept⟩ := Session.run_bind_eq_some kept
        cases kept
        cases refused
      · cases kept
        exact ⟨(shape.openWrite_confined count 0 0).refused stopped, rfl⟩

/-- A session leaves what a run leaves in which nothing is refused. -/
theorem session_without_refusals (writes : ∀ step ∈ taken, Writes orderly step)
    (ran : (Session.message (shape.openWithHeader 0) taken).run.run
      { wire := MessageShape.fresh buffer } = (some (), after)) :
    ∃ started operations last, start? shape buffer = some started ∧
      started.accepted operations = operations ∧
      started.performAll operations = some ⟨after.wire, last, []⟩ := by
  obtain ⟨started, last, start, operations, performed, _⟩ := reaches_of_message writes ran
  refine ⟨started, started.accepted operations, last, start, (started.performAll_accepted _).2, ?_⟩
  rw [(started.performAll_accepted _).1, performed]

end Writer

end Sbe.Codec
