import Sbe.Proofs.Session
import Sbe.Proofs.Versions

/-!
**Sessions in messages of different versions.**

A session that is about elements of a version shows the same in every version from there on: the
same entries, with their refusals and faults, the same bytes and the same limit.

* `Step.isKnown`: steps that are about elements of a version;
* `Session.Steadily`: pieces of a session that make no difference between versions;
* `Session.shown_of_known`: whole sessions;
* `version_decides_presence_only`: cars and service visits of all versions.
-/

namespace Sbe

namespace Codec

variable {α β : Type}

/-! ### Steps -/

mutual

/-- Whether a step is about elements that a message of a version has. -/
def Step.isKnown (known : Nat) : Step → Contents → Bool
  | .ask queries, _ => queries.all Query.isPlain
  | .setLimit _, _ => true
  | .field name _, contents => contents.knowsMember known name && contents.knowsVarData known name
  | .bitSet name _, contents => contents.knowsMember known name
  | .composite name _, contents => contents.knowsMember known name
  | .next, _ => true
  | .group name _ inner, contents =>
    match contents.groups.find? fun shape => shape.name == name with
    | none => true
    | some shape => decide (shape.since ≤ known) && Step.allKnown known inner shape.contents
  | .forEach inner, contents => Step.allKnown known inner contents

/-- Whether steps are about elements that a message of a version has. -/
def Step.allKnown (known : Nat) : List Step → Contents → Bool
  | [], _ => true
  | step :: rest, contents => Step.isKnown known step contents && Step.allKnown known rest contents

end

/-- A step is a single one, or has steps of its own. -/
@[elab_as_elim]
theorem Step.induct {motive : Step → Prop} (ask : ∀ queries, motive (.ask queries))
    (setLimit : ∀ limit, motive (.setLimit limit))
    (field : ∀ name access, motive (.field name access))
    (bitSet : ∀ name access, motive (.bitSet name access))
    (composite : ∀ name accesses, motive (.composite name accesses)) (next : motive .next)
    (group : ∀ name written inner, (∀ step ∈ inner, motive
      step) → motive (.group name written inner))
    (forEach : ∀ inner, (∀ step ∈ inner, motive step) → motive (.forEach inner)) :
    ∀ step, motive step
  | .ask queries => ask queries
  | .setLimit limit => setLimit limit
  | .field name access => field name access
  | .bitSet name access => bitSet name access
  | .composite name accesses => composite name accesses
  | .next => next
  | .group name written inner => group name written inner fun step _ =>
    induct ask setLimit field bitSet composite next group forEach step
  | .forEach inner => forEach inner fun step _ =>
    induct ask setLimit field bitSet composite next group forEach step

/-- The record of the same bytes in another version. -/
def Record.atVersion (record : Record) (version : Nat) : Record :=
  { record with wire := record.wire.atVersion version }

/-! ### Sessions -/

namespace Session

theorem run_bind (first : Session α) (next : α → Session β) (record : Record) :
    (first >>= next).run.run record =
      match first.run.run record with
      | (some value, after) => (next value).run.run after
      | (none, after) => (none, after) := by
  rw [OptionT.run_bind, Option.elimM, StateT.run_bind]
  rcases first.run.run record with ⟨_ | value, after⟩
  · rfl
  · rfl

theorem run_perform_fault {work : Codec α} {record : Record} {wire : Wire}
    (fault : work.run record.wire = (.error .fault, wire)) :
    (perform work).run.run record = (none, ⟨wire, .fault :: record.entries⟩) := by
  have got : (get : Session Record).run.run record = (some record, record) := rfl
  rw [perform, run_bind_of_some got, fault]
  rfl

/-- A piece of a session that makes no difference between the versions from one on, and gives values
with a property. -/
def Steadily (known : Nat) (property : α → Prop) (work : Session α) : Prop :=
  ∀ record : Record, ∃ (result : Option α) (after : Record), (∀ value ∈ result, property value) ∧
    ∀ version, known ≤ version →
      work.run.run (record.atVersion version) = (result, after.atVersion version)

namespace Steadily

variable {known : Nat} {property : α → Prop}

theorem pure {value : α} (holds : property value) :
    Steadily known property (pure value : Session α) := by
  intro record
  refine ⟨some value, record, ?_, fun _ _ => rfl⟩
  rintro _ ⟨⟩
  exact holds

theorem bind {first : Session α} {next : α → Session β} {later : β → Prop}
    (one : Steadily known property first)
    (two : ∀ value, property value → Steadily known later (next value)) :
    Steadily known later (first >>= next) := by
  intro record
  obtain ⟨result, middle, holds, first⟩ := one record
  cases result with
  | none =>
    refine ⟨none, middle, by simp, fun version new => ?_⟩
    rw [run_bind, first version new]
  | some value =>
    obtain ⟨result, after, final, second⟩ := two value (holds value rfl) middle
    refine ⟨result, after, final, fun version new => ?_⟩
    rw [run_bind_of_some (first version new), second version new]

theorem keep (entry : Entry) : Steadily known (fun _ => True) (keep entry) :=
  fun record => ⟨some (), { record with entries := entry :: record.entries }, fun _ _ => trivial,
    fun _ _ => rfl⟩

theorem limit : Steadily known (fun _ => True) limit :=
  fun record => ⟨some record.wire.cursor.limit, record, fun _ _ => trivial, fun _ _ => rfl⟩

theorem perform {work : Codec α} (steady : Steady known work) :
    Steadily known (fun _ => True) (perform work) := by
  intro record
  obtain ⟨outcome, wire, ran⟩ := steady record.wire
  rcases outcome with (cause | _) | value
  · exact ⟨some none, ⟨wire, .refused cause wire.cursor.limit :: record.entries⟩,
      fun _ _ => trivial, fun version new => run_perform_refused (ran version new)⟩
  · exact ⟨none, ⟨wire, .fault :: record.entries⟩, fun _ _ => trivial,
      fun version new => run_perform_fault (ran version new)⟩
  · exact ⟨some (some value), { record with wire }, fun _ _ => trivial,
      fun version new => run_perform_ok (ran version new)⟩

theorem give {work : Codec Datum} (steady : Steady known work) :
    Steadily known (fun _ => True) (give work) := by
  refine (perform steady).bind fun result _ => ?_
  cases result with
  | none => exact pure trivial
  | some datum => exact limit.bind fun _ _ => keep _

/-- A step that gives something goes on with the same element. -/
theorem give_same {work : Codec Datum} (steady : Steady known work) {element : Element}
    {contents : Contents} (same : element.contents = contents) :
    Steadily known (fun element => element.contents = contents) (do
      Session.give work
      Pure.pure element) :=
  (give steady).bind fun _ _ => pure same

end Steadily

variable {known : Nat}

/-- Going through repetitions: one repetition after another. -/
theorem forEachUpTo_steadily {work : Element → Session Element} {shape : GroupShape}
    (each : ∀ view, Steadily known (fun element => element.contents = shape.contents)
      (work (.group shape view))) (fuel : Nat) {element : Element}
    (same : element.contents = shape.contents) :
    Steadily known (fun element => element.contents = shape.contents)
      (forEachUpTo work shape fuel element) := by
  induction fuel generalizing element with
  | zero =>
    cases element with
    | _ => exact .pure same
  | succ fuel ih =>
    cases element with
    | message view => exact .pure same
    | group _ view =>
      rw [forEachUpTo_succ]
      split
      · refine (Steadily.perform view.next_steady).bind fun result _ => ?_
        cases result with
        | none => exact .pure rfl
        | some view => exact (each view).bind fun element same => ih same
      · exact .pure rfl

theorem steps_steadily {taken : List Step}
    (each : ∀ step ∈ taken, ∀ element, step.isKnown known element.contents = true →
      Steadily known (fun after => after.contents = element.contents) (Session.step step element))
    (element : Element) (new : Step.allKnown known taken element.contents = true) :
    Steadily known (fun after => after.contents = element.contents) (steps taken element) := by
  induction taken generalizing element with
  | nil => exact .pure rfl
  | cons step rest ih =>
    rw [Step.allKnown, Bool.and_eq_true] at new
    obtain ⟨first, later⟩ := List.forall_mem_cons.mp each
    refine (first element new.1).bind fun after same => ?_
    rw [← same] at new ⊢
    exact ih later after new.2

theorem step_steadily (step : Step) :
    ∀ element, step.isKnown known element.contents = true →
      Steadily known (fun after => after.contents = element.contents)
        (Session.step step element) := by
  induction step using Step.induct with
  | ask queries =>
    intro element new
    exact .give_same (Element.answer_steady new) rfl
  | setLimit limit =>
    intro element _
    exact .give_same (Steady.setLimit limit).silent rfl
  | field name access =>
    intro element new
    rw [Step.isKnown, Bool.and_eq_true] at new
    exact .give_same (Element.access_steady new.1 new.2 access) rfl
  | bitSet name access =>
    intro element new
    exact .give_same (Element.accessSet_steady new access) rfl
  | composite name accesses =>
    intro element new
    exact .give_same (Element.accessComposite_steady new accesses) rfl
  | next =>
    intro element _
    cases element with
    | message view => exact .pure rfl
    | group shape view =>
      rw [step_next]
      refine (Steadily.perform view.next_steady).bind fun result _ => ?_
      cases result with
      | none => exact .pure rfl
      | some view =>
        exact Steadily.limit.bind fun _ _ => (Steadily.keep _).bind fun _ _ => .pure rfl
  | group name written inner ih =>
    intro element new
    rw [Session.step]
    rw [Step.isKnown] at new
    cases found : element.group? name with
    | none => exact .pure rfl
    | some shape =>
      rw [show element.contents.groups.find? _ = _ from found, Bool.and_eq_true] at new
      have opening : Steady known ((written.map shape.openWrite).getD shape.openRead) := by
        cases written with
        | none => exact GroupShape.openRead_steady (of_decide_eq_true new.1)
        | some count => exact shape.openWrite_steady count
      refine (Steadily.perform opening).bind fun result _ => ?_
      cases result with
      | none => exact .pure rfl
      | some view =>
        refine Steadily.limit.bind fun _ _ => (Steadily.keep _).bind fun _ _ => ?_
        refine Steadily.bind (steps_steadily ih (.group shape view) new.2) fun _ _ => ?_
        exact Steadily.limit.bind fun _ _ => (Steadily.keep _).bind fun _ _ => .pure rfl
  | forEach inner ih =>
    intro element new
    cases element with
    | message view => exact .pure rfl
    | group shape view =>
      have each (view : GroupView) := steps_steadily ih (.group shape view) new
      refine (forEachUpTo_steadily each _ rfl).bind fun element same => ?_
      exact Steadily.limit.bind fun _ _ => (Steadily.keep _).bind fun _ _ => .pure same

/-- What a session shows, the version of its wire aside: its entries, the bytes and the limit. -/
def shown (wire : Wire) (opening : Codec MessageView) (taken : List Step) :
    List Entry × Buffer × Nat :=
  ((entries wire opening taken).1, (entries wire opening taken).2.buffer,
    (entries wire opening taken).2.cursor.limit)

/-- From the version on that has all that the steps are about, a session shows the same. -/
theorem shown_of_known {shape : MessageShape} {taken : List Step}
    (new : Step.allKnown known taken shape.contents = true) (wire : Wire)
    (offset blockLength : Nat) :
    ∃ result, ∀ version, known ≤ version →
      shown wire (shape.openAt offset blockLength version) taken = result := by
  by_cases small : offset + blockLength < wordBound
  · -- The opening sets the version; the rest of the session does not care.
    have rest : Steadily known (fun _ => True) (do
        keep (.opened offset (← limit))
        let _ ← steps taken (.message ⟨shape, offset, blockLength⟩)
        pure () : Session Unit) :=
      Steadily.limit.bind fun _ _ => (Steadily.keep _).bind fun _ _ =>
        (steps_steadily (fun step _ => step_steadily step) _ new).bind fun _ _ => .pure trivial
    obtain ⟨done, after, _, ran⟩ := rest ⟨⟨wire.buffer, ⟨offset + blockLength, 0⟩⟩, []⟩
    refine ⟨(after.entries.reverse, after.wire.buffer, after.wire.cursor.limit),
      fun version newer => ?_⟩
    have opened := MessageShape.run_openAt shape small version wire
    have ended : (message (shape.openAt offset blockLength version) taken).run.run { wire } =
        (done, after.atVersion version) := by
      rw [message, run_bind_of_some (run_perform_ok opened)]
      exact ran version newer
    rw [shown, entries, ended]
    rfl
  · refine ⟨([.fault], wire.buffer, wire.cursor.limit), fun version _ => ?_⟩
    have failed : (shape.openAt offset blockLength version).run wire = (.error .fault, wire) := by
      rw [MessageShape.openAt, addSize, if_neg small]
      rfl
    have ended : (message (shape.openAt offset blockLength version) taken).run.run { wire } =
        (none, ⟨wire, [.fault]⟩) := by
      rw [message, run_bind, run_perform_fault failed]
    rw [shown, entries, ended]
    rfl

end Session

/-! ### Messages that have everything -/

mutual

/-- Whether a message of a version has a group with all that it holds. -/
def GroupShape.isKnown (known : Nat) : GroupShape → Bool
  | .mk _ _ _ _ since members groups varData =>
    decide (since ≤ known) && (members.all (Member.isKnown known) &&
      (GroupShape.allKnown known groups && varData.all fun field => decide (field.since ≤ known)))

/-- Whether a message of a version has groups with all that they hold. -/
def GroupShape.allKnown (known : Nat) : List GroupShape → Bool
  | [] => true
  | shape :: rest => shape.isKnown known && GroupShape.allKnown known rest

end

/-- Whether a message of a version has all of some contents. -/
def Contents.isKnown (known : Nat) (contents : Contents) : Bool :=
  contents.members.all (Member.isKnown known) && (GroupShape.allKnown known contents.groups &&
    contents.varData.all fun field => decide (field.since ≤ known))

theorem GroupShape.isKnown_of_mem {known : Nat} {shape : GroupShape} {groups : List GroupShape}
    (all : allKnown known groups = true) (member : shape ∈ groups) :
    shape.isKnown known = true := by
  induction member with
  | head => exact (Bool.and_eq_true_iff.mp all).1
  | tail _ _ ih => exact ih (Bool.and_eq_true_iff.mp all).2

namespace Contents

variable {known : Nat} {contents : Contents}

theorem knowsMember_of_isKnown (all : contents.isKnown known = true) (name : String) :
    contents.knowsMember known name = true := by
  rw [knowsMember, Option.all_eq_true]
  intro member found
  have members := (Bool.and_eq_true_iff.mp all).1
  exact List.all_eq_true.mp members member (List.mem_of_find?_eq_some found)

theorem knowsVarData_of_isKnown (all : contents.isKnown known = true) (name : String) :
    contents.knowsVarData known name = true := by
  rw [knowsVarData, Option.all_eq_true]
  intro field found
  have varData := (Bool.and_eq_true_iff.mp (Bool.and_eq_true_iff.mp all).2).2
  exact List.all_eq_true.mp varData field (List.mem_of_find?_eq_some found)

theorem isKnown_of_group {shape : GroupShape} (all : contents.isKnown known = true)
    (member : shape ∈ contents.groups) :
    shape.since ≤ known ∧ shape.contents.isKnown known = true := by
  have groups := (Bool.and_eq_true_iff.mp (Bool.and_eq_true_iff.mp all).2).1
  have whole := GroupShape.isKnown_of_mem groups member
  cases shape with
  | mk =>
    obtain ⟨since, inside⟩ := Bool.and_eq_true_iff.mp whole
    exact ⟨of_decide_eq_true since, inside⟩

end Contents

namespace Step

variable {known least : Nat}

theorem allKnown_of_contents {taken : List Step} {contents : Contents}
    (each : ∀ step ∈ taken, ∀ contents : Contents, contents.isKnown least = true →
      step.isKnown known contents = true → step.isKnown least contents = true)
    (all : contents.isKnown least = true) (new : allKnown known taken contents = true) :
    allKnown least taken contents = true := by
  induction taken with
  | nil => rfl
  | cons step rest ih =>
    obtain ⟨first, later⟩ := List.forall_mem_cons.mp each
    rw [allKnown, Bool.and_eq_true] at new ⊢
    exact ⟨first contents all new.1, ih later new.2⟩

theorem isKnown_of_contents (step : Step) : ∀ contents : Contents, contents.isKnown least = true →
    step.isKnown known contents = true → step.isKnown least contents = true := by
  induction step using Step.induct with
  | ask queries => exact fun _ _ plain => plain
  | setLimit limit => exact fun _ _ _ => rfl
  | field name access =>
    intro contents all _
    rw [isKnown, Bool.and_eq_true]
    exact ⟨contents.knowsMember_of_isKnown all name, contents.knowsVarData_of_isKnown all name⟩
  | bitSet name access => exact fun contents all _ => contents.knowsMember_of_isKnown all name
  | composite name accesses => exact fun contents all _ => contents.knowsMember_of_isKnown all name
  | next => exact fun _ _ _ => rfl
  | group name written inner ih =>
    intro contents all new
    rw [isKnown] at new ⊢
    cases found : contents.groups.find? fun shape => shape.name == name with
    | none => rfl
    | some shape =>
      obtain ⟨since, inside⟩ := Contents.isKnown_of_group all (List.mem_of_find?_eq_some found)
      rw [found] at new
      have later := allKnown_of_contents ih inside (Bool.and_eq_true_iff.mp new).2
      exact Bool.and_eq_true_iff.mpr ⟨decide_eq_true since, later⟩
  | forEach inner ih => exact fun contents all new => allKnown_of_contents ih all new

end Step

end Codec

namespace Demo

open Sbe.Codec

theorem Car.isKnown_schemaVersion : Car.shape.contents.isKnown schemaVersion = true := by decide

theorem Service.isKnown_schemaVersion : Service.shape.contents.isKnown schemaVersion = true := by
  decide

/-- In a car or service visit of any version, what is newer than the version is not there, whatever
the bytes are; all else is as in version 1, for any steps, with their values, refusals and
faults. -/
theorem version_decides_presence_only (offset blockLength version : Nat) :
    (version < schemaVersion → ∀ wire : Wire, wire.cursor.version = version →
      Car.Lacks offset wire ∧ Service.Lacks offset wire) ∧
    ∀ shape ∈ [Car.shape, Service.shape], ∀ taken : List Step,
      Step.allKnown version taken shape.contents = true → ∀ buffer : Buffer,
        Session.shown (MessageShape.fresh buffer) (shape.openAt offset blockLength version) taken =
          Session.shown (MessageShape.fresh buffer)
            (shape.openAt offset blockLength schemaVersion) taken := by
  constructor
  · rintro older wire rfl
    exact ⟨Car.lacks_of_older older offset, Service.lacks_of_older older offset⟩
  · intro shape member taken new buffer
    have all : shape.contents.isKnown schemaVersion = true := by
      simp only [List.mem_cons, List.not_mem_nil, or_false] at member
      rcases member with rfl | rfl
      · exact Car.isKnown_schemaVersion
      · exact Service.isKnown_schemaVersion
    -- The least of the two versions has all that the steps are about.
    rcases Nat.le_total version schemaVersion with older | newer
    · obtain ⟨result, shows⟩ :=
        Session.shown_of_known new (MessageShape.fresh buffer) offset blockLength
      rw [shows version (Nat.le_refl _), shows schemaVersion older]
    · have known := Step.allKnown_of_contents (fun step _ => step.isKnown_of_contents) all new
      obtain ⟨result, shows⟩ :=
        Session.shown_of_known known (MessageShape.fresh buffer) offset blockLength
      rw [shows version newer, shows schemaVersion (Nat.le_refl _)]

/-- Steps that a service visit of version 0 is enough for. -/
def firstVersionSteps : List Step :=
  [.field "mileage" .read, .field "grade" .read, .field "remark" .readBytes, .ask [.limit]]

theorem version_decides_presence_only_first :
    (0 < schemaVersion ∧ Car.Lacks 8 (MessageShape.fresh (.ofList [])) ∧
      Service.Lacks 8 (MessageShape.fresh (.ofList []))) ∧
    Service.shape ∈ [Car.shape, Service.shape] ∧
    Step.allKnown 0 firstVersionSteps Service.shape.contents = true ∧
    Session.shown (MessageShape.fresh (.ofList [120, 0, 66, 1, 0, 0, 0, 7]))
        (Service.shape.openAt 0 3 0) firstVersionSteps =
      Session.shown (MessageShape.fresh (.ofList [120, 0, 66, 1, 0, 0, 0, 7]))
        (Service.shape.openAt 0 3 schemaVersion) firstVersionSteps :=
  ⟨⟨by decide, (version_decides_presence_only 8 3 0).1 (by decide) _ rfl⟩, by simp, by decide,
    (version_decides_presence_only 0 3 0).2 _ (by simp) _ (by decide) _⟩

end Demo

end Sbe
