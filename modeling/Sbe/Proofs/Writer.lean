import Sbe.Demo.Car
import Sbe.Demo.Order
import Sbe.Demo.Service
import Sbe.Proofs.Confinement

/-!
**Messages being written.**

A writer stands in a message or in a group inside it, and takes one operation after another: it sets
fields, opens groups, takes their repetitions and closes them again. A refused operation is passed
over; a fault ends the writing.

* `refused_keeps_writer`: a refused operation leaves the writer as it was, and can be left out of a
  run;
* `performAll_accepted`: nothing is refused in a run without its refused operations.
-/

namespace Sbe

namespace Codec

/-! ### Writers -/

/-- A message being written: the wire, the message or group in which the writer stands, and what
that is inside of, the innermost first. -/
structure Writer where
  wire : Wire
  focus : Element
  around : List Element

namespace Writer

/-- What a writer can be asked for. -/
inductive Operation where
  | access (access : Access)
  | openGroup (name : String) (count : Nat)
  | next
  | close

/-- Does work on the wire, and changes the writer by what comes of it. -/
def act {α : Type} (writer : Writer) (work : Codec α) (change : Writer → α → Writer) :
    Outcome CodecError Unit × Writer :=
  match work.run writer.wire with
  | (.ok value, wire) => (.ok (), change { writer with wire } value)
  | (.error halt, wire) => (.error halt, { writer with wire })

/-- Accesses what the writer stands in. -/
def access (writer : Writer) (access : Access) : Outcome CodecError Unit × Writer :=
  writer.act (access.work writer.focus) fun writer _ => writer

/-- Opens a group and steps into it. -/
def openGroup (writer : Writer) (name : String) (count : Nat) : Outcome CodecError Unit × Writer :=
  match writer.focus.group? name with
  | none => (.ok (), writer)
  | some shape => writer.act (shape.openWrite count) fun writer view =>
      { writer with focus := .group shape view, around := writer.focus :: writer.around }

/-- Takes the next repetition of the group; what that has done to the group stays, whatever comes of
it. -/
def next (writer : Writer) : Outcome CodecError Unit × Writer :=
  match writer.focus with
  | .message _ => (.ok (), writer)
  | .group shape view =>
    let (outcome, view, wire) := GroupView.advance.run (view, writer.wire)
    (outcome, { writer with wire, focus := .group shape view })

/-- Steps out of the group. -/
def close (writer : Writer) : Writer :=
  match writer.around with
  | [] => writer
  | outer :: around => { writer with focus := outer, around }

/-- Performs one operation; one that makes no sense where the writer stands does nothing. -/
def perform (writer : Writer) : Operation → Outcome CodecError Unit × Writer
  | .access access => writer.access access
  | .openGroup name count => writer.openGroup name count
  | .next => writer.next
  | .close => (.ok (), writer.close)

/-- Performs operations one after another, whether they are refused or not; nothing comes of it
after a fault. -/
def performAll (writer : Writer) : List Operation → Option Writer
  | [] => some writer
  | operation :: rest =>
    match writer.perform operation with
    | (.error .fault, _) => none
    | (_, after) => after.performAll rest

/-- A writer that has put the header of a message at the start of a buffer. -/
def start? (shape : MessageShape) (buffer : Buffer) : Option Writer :=
  match (shape.openWithHeader 0).run (MessageShape.fresh buffer) with
  | (.ok view, wire) => some ⟨wire, .message view, []⟩
  | (.error _, _) => none

/-! ### Refusals -/

theorem act_eq_ok {α : Type} {writer after : Writer} {work : Codec α} {change : Writer → α → Writer}
    (done : writer.act work change = (.ok (), after)) :
    ∃ value wire, work.run writer.wire = (.ok value, wire) ∧
      after = change { writer with wire } value := by
  unfold act at done
  split at done
  · rename_i value wire ended
    cases done
    exact ⟨value, wire, ended, rfl⟩
  · cases done

theorem act_refused {α : Type} {low high : Nat} {writer after : Writer} {work : Codec α}
    {change : Writer → α → Writer} {cause : CodecError} (confined : Confined low high work)
    (refused : writer.act work change = (.error (.refused cause), after)) : after = writer := by
  unfold act at refused
  split at refused
  · cases refused
  · rename_i halt wire ended
    cases refused
    rw [confined.refused ended]

theorem perform_access {access : Access} {element : Element} (around : List Element)
    {wire after : Wire} {outcome : Outcome CodecError Datum}
    (ran : (access.work element).run wire = (outcome, after)) :
    (Writer.mk wire element around).perform (.access access) =
      (outcome.map fun _ => (), ⟨after, element, around⟩) := by
  show Writer.access _ access = _
  unfold Writer.access act
  rw [ran]
  cases outcome with
  | ok datum => rfl
  | error halt => rfl

theorem perform_next {shape : GroupShape} {view moved : GroupView} (around : List Element)
    {wire after : Wire} {outcome : Outcome CodecError Unit}
    (ran : GroupView.advance.run (view, wire) = (outcome, moved, after)) :
    (Writer.mk wire (.group shape view) around).perform .next =
      (outcome, ⟨after, .group shape moved, around⟩) := by
  simp only [perform, next, ran]

/-- A refused operation leaves the writer as it was. -/
theorem eq_of_refused {writer after : Writer} {operation : Operation} {cause : CodecError}
    (refused : writer.perform operation = (.error (.refused cause), after)) : after = writer := by
  cases operation with
  | access access =>
    change writer.access access = _ at refused
    -- Any range will do: where an access would write does not matter when it is refused.
    exact act_refused (access.confined fun _ => ⟨Nat.le_refl _, Nat.le_refl _⟩) refused
  | openGroup name count =>
    change writer.openGroup name count = _ at refused
    unfold openGroup at refused
    split at refused
    · cases refused
    · exact act_refused (GroupShape.openWrite_confined _ count 0 0) refused
  | next =>
    obtain ⟨wire, focus, around⟩ := writer
    cases focus with
    | message view => cases refused
    | group shape view =>
      rcases ran : GroupView.advance.run (view, wire) with ⟨outcome, moved, further⟩
      rw [perform_next around ran] at refused
      obtain ⟨rfl, rfl⟩ := Prod.mk.inj refused
      obtain ⟨rfl, rfl⟩ := GroupView.eq_of_advance_refused ran
      rfl
  | close => cases refused

/-- The operations that are not refused. -/
def accepted (writer : Writer) : List Operation → List Operation
  | [] => []
  | operation :: rest =>
    match writer.perform operation with
    | (.error (.refused _), after) => after.accepted rest
    | (_, after) => operation :: after.accepted rest

/-- Refused operations can be left out of a run, and nothing is refused without them. -/
theorem performAll_accepted (writer : Writer) (operations : List Operation) :
    writer.performAll (writer.accepted operations) = writer.performAll operations ∧
      writer.accepted (writer.accepted operations) = writer.accepted operations := by
  induction operations generalizing writer with
  | nil => exact ⟨rfl, rfl⟩
  | cons operation rest ih =>
    cases ended : writer.perform operation with
    | mk outcome after =>
      obtain ⟨same, kept⟩ := ih after
      rw [accepted, performAll, ended]
      cases outcome with
      | ok =>
        show performAll writer (operation :: _) = _ ∧ accepted writer (operation :: _) = _
        rw [performAll, accepted, ended]
        exact ⟨same, congrArg (operation :: ·) kept⟩
      | error halt =>
        cases halt with
        | refused cause =>
          -- The operation is left out, and the rest starts from the same writer.
          cases eq_of_refused ended
          exact ⟨same, kept⟩
        | fault =>
          show performAll writer (operation :: _) = none ∧ accepted writer (operation :: _) = _
          rw [performAll, accepted, ended]
          exact ⟨rfl, congrArg (operation :: ·) kept⟩

/-- A refused operation leaves the wire and the writer's place on it as they were, so a run does the
same without its refused operations. -/
theorem refused_keeps_writer (writer : Writer) :
    (∀ operation cause after, writer.perform operation = (.error (.refused cause), after) →
      after = writer) ∧
    ∀ operations, writer.performAll (writer.accepted operations) = writer.performAll operations :=
  ⟨fun _ _ _ refused => eq_of_refused refused,
    fun operations => (writer.performAll_accepted operations).1⟩

theorem refusals_keep_writers :
    ∃ car inner service,
      start? Demo.Car.shape (.ofList (List.replicate 80 7)) = some car ∧
      car.performAll [.openGroup "performanceFigures" 1, .next, .openGroup "acceleration" 0] =
        some inner ∧
      start? Demo.Service.shape (.ofList (List.replicate 24 7)) = some service ∧
      car.perform (.openGroup "fuelFigures" 65535) =
        (.error (.refused (.countOutOfRange "fuelFigures" 65535 0 65534)), car) ∧
      car.perform (.access (.field "someNumbers" (.writeAt 4 9))) =
        (.error (.refused (.indexOutOfRange "someNumbers" 4 4)), car) ∧
      car.perform (.access (.field "vehicleCode" (.writeText "é"))) =
        (.error (.refused (.unrepresentable "US-ASCII" 'é')), car) ∧
      inner.perform .next = (.error (.refused (.groupExhausted "acceleration" 0)), inner) ∧
      service.perform (.access (.field "remark" (.writeBytes (List.replicate 9 0)))) =
        (.error (.refused (.lengthExceedsMaximum "remark" 9 8)), service) := by
  have kept {writer : Writer} {operation : Operation} {cause : CodecError}
      (refused : (writer.perform operation).1 = .error (.refused cause)) :
      writer.perform operation = (.error (.refused cause), writer) :=
    Prod.ext refused ((refused_keeps_writer writer).1 operation cause _ (Prod.ext refused rfl))
  exact ⟨_, _, _, rfl, rfl, rfl, kept rfl, kept rfl, kept rfl, kept rfl, kept rfl⟩

end Writer

end Codec

end Sbe
