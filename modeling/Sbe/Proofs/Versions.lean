import Sbe.Demo.Car
import Sbe.Demo.Service
import Sbe.Proofs.Locality

/-!
**What the version of a message decides.**

The version of a message decides which elements it has, and nothing else. An element that a message
is too old for is read without a look at the bytes; one that it has is read as in every later
version.

* `run_of_older`: the reading of an element that a message is too old for;
* `Car.Lacks`, `Service.Lacks`: what the readers of newer elements give in older messages;
* `Steady`: work that makes no difference between the versions from one on;
* `Element.access_steady`, `Element.accessSet_steady`, `Element.accessComposite_steady`,
  `Element.answer_steady`: every access to what a message of a version has.
-/

namespace Sbe

/-- The wire of the same bytes in another version. -/
def Wire.atVersion (wire : Wire) (version : Nat) : Wire :=
  { wire with cursor := { wire.cursor with version } }

namespace Codec

variable {α β : Type}

/-! ### Elements that a message is too old for -/

theorem run_of_older {since : Nat} {wire : Wire} (older : wire.cursor.version < since)
    (absent work : Codec α) :
    (isOlder since >>= fun older => if older then absent else work).run wire = absent.run wire := by
  rw [run_bind_of_ok (run_isOlder since wire), decide_eq_true older]
  rfl

theorem NumberField.run_read_of_older {field : NumberField} {wire : Wire}
    (older : wire.cursor.version < field.since) (base : Nat) :
    (field.read base).run wire = (.ok field.primitive.nullPattern, wire) :=
  run_of_older older _ _

namespace VarField

variable {field : VarField} {wire : Wire}

theorem run_length_of_older (older : wire.cursor.version < field.since) :
    field.length.run wire = (.ok 0, wire) :=
  run_of_older older _ _

theorem run_skip_of_older (older : wire.cursor.version < field.since) :
    field.skip.run wire = (.ok 0, wire) :=
  run_of_older older _ _

theorem run_bytes_of_older (older : wire.cursor.version < field.since) :
    field.bytes.run wire = (.ok [], wire) :=
  run_of_older older _ _

/-- Copying has no test of its own; it copies no bytes. -/
theorem run_copy_of_older (older : wire.cursor.version < field.since) (destination : List UInt8) :
    (field.copy destination).run wire = (.ok (0, destination), wire) := by
  rw [copy, run_bind_of_ok (run_bytes_of_older older), List.take_nil]
  rfl

end VarField

theorem viewAt_of_older {place : Nat → α} {since : Nat} {wire : Wire}
    (older : wire.cursor.version < since) (offset base : Nat) :
    (viewAt place since offset base).run wire = (.ok none, wire) :=
  run_of_older older _ _

/-- A group without repetitions. -/
def GroupShape.empty (shape : GroupShape) : GroupView :=
  { name := shape.name, blockLength := shape.blockLength, count := 0 }

theorem GroupShape.run_openRead_of_older {shape : GroupShape} {wire : Wire}
    (older : wire.cursor.version < shape.since) :
    shape.openRead.run wire = (.ok shape.empty, wire) :=
  run_of_older older _ _

end Codec

namespace Demo

open Sbe.Codec

/-- What version 1 added to a car is not there, and nothing of it is looked up: the number of cup
holders is null, the activation code is empty, and the wire stays as it is. -/
structure Car.Lacks (base : Nat) (wire : Wire) : Prop where
  cupHolderCount : (cupHolderCountField.read base).run wire = (.ok 255, wire)
  length : activationCodeField.length.run wire = (.ok 0, wire)
  skip : activationCodeField.skip.run wire = (.ok 0, wire)
  bytes : activationCodeField.bytes.run wire = (.ok [], wire)
  copy : ∀ destination,
    (activationCodeField.copy destination).run wire = (.ok (0, destination), wire)

theorem Car.lacks_of_older {wire : Wire} (older : wire.cursor.version < schemaVersion)
    (base : Nat) : Car.Lacks base wire where
  cupHolderCount := NumberField.run_read_of_older older base
  length := VarField.run_length_of_older older
  skip := VarField.run_skip_of_older older
  bytes := VarField.run_bytes_of_older older
  copy := VarField.run_copy_of_older older

/-- What version 1 added to a service visit is not there, and nothing of it is looked up: there are
no extras, no engine and no stops, and the wire stays as it is. -/
structure Service.Lacks (base : Nat) (wire : Wire) : Prop where
  extras : (extrasField.view? base).run wire = (.ok none, wire)
  engine : (engineField.view? base).run wire = (.ok none, wire)
  openRead : stops.openRead.run wire = (.ok stops.empty, wire)
  hasNext : stops.empty.hasNext = false
  next : GroupView.advance.run (stops.empty, wire) =
    (.error (.refused (.groupExhausted "stops" 0)), stops.empty, wire)
  forEach : ∀ (α : Type) (work : GroupView → Codec α),
    (stops.empty.forEach work).run wire = (.ok [], wire)

theorem Service.lacks_of_older {wire : Wire} (older : wire.cursor.version < schemaVersion)
    (base : Nat) : Service.Lacks base wire where
  extras := viewAt_of_older older _ base
  engine := viewAt_of_older older _ base
  openRead := GroupShape.run_openRead_of_older older
  hasNext := rfl
  next := rfl
  forEach _ _ := rfl

end Demo

namespace Codec

/-! ### Elements that a message is new enough for -/

/-- Work that makes no difference between the versions from one on: it has the same outcome in all
of them, and leaves the same bytes and the same limit. -/
def Steady (known : Nat) (work : Codec α) : Prop :=
  ∀ wire : Wire, ∃ (outcome : Outcome CodecError α) (after : Wire), ∀ version, known ≤ version →
    work.run (wire.atVersion version) = (outcome, after.atVersion version)

namespace Steady

variable {known : Nat}

theorem ofOutcome (outcome : Outcome CodecError α) : Steady known (ofOutcome outcome) :=
  fun wire => ⟨outcome, wire, fun _ _ => rfl⟩

theorem pure (value : α) : Steady known (pure value : Codec α) := ofOutcome (.ok value)

theorem refuse (cause : CodecError) : Steady known (refuse cause : Codec α) :=
  ofOutcome (.refuse cause)

theorem limit : Steady known limit := fun wire => ⟨.ok wire.cursor.limit, wire, fun _ _ => rfl⟩

theorem capacity : Steady known capacity :=
  fun wire => ⟨.ok wire.buffer.capacity, wire, fun _ _ => rfl⟩

theorem setLimit (limit : Nat) : Steady known (setLimit limit) :=
  fun wire => ⟨.ok (), { wire with cursor := { wire.cursor with limit } }, fun _ _ => rfl⟩

theorem slice (index length : Nat) : Steady known (slice index length) :=
  fun wire => ⟨wire.buffer.slice index length, wire, fun _ _ => rfl⟩

theorem putBytes (index : Nat) (source : List UInt8) : Steady known (putBytes index source) := by
  intro wire
  by_cases inside : wire.buffer.holds index source.length = true
  · exact ⟨.ok (), { wire with buffer := wire.buffer.overwrite index source },
      fun _ _ => if_pos inside⟩
  · exact ⟨.error .fault, wire, fun _ _ => if_neg inside⟩

theorem bind {first : Codec α} {next : α → Codec β} (one : Steady known first)
    (two : ∀ value, Steady known (next value)) : Steady known (first >>= next) := by
  intro wire
  obtain ⟨outcome, middle, first⟩ := one wire
  cases outcome with
  | error halt =>
    refine ⟨.error halt, middle, fun version new => ?_⟩
    rw [run_bind, first version new]
  | ok value =>
    obtain ⟨outcome, after, second⟩ := two value middle
    refine ⟨outcome, after, fun version new => ?_⟩
    rw [run_bind_of_ok (first version new), second version new]

theorem map {work : Codec α} (steady : Steady known work) (image : α → β) :
    Steady known (work >>= fun value => Pure.pure (image value)) :=
  steady.bind fun value => pure (image value)

theorem silent {work : Codec Unit} (steady : Steady known work) : Steady known (silent work) :=
  steady.map _

theorem ite {condition : Prop} [Decidable condition] {yes no : Codec α} (one : Steady known yes)
    (two : Steady known no) : Steady known (if condition then yes else no) := by
  split
  · exact one
  · exact two

theorem mapM {work : β → Codec α} {items : List β}
    (each : ∀ item ∈ items, Steady known (work item)) : Steady known (items.mapM work) :=
  mapM_of_closed (fun _ => Steady known) pure bind each

/-- The version is asked for, and the answer is the same from the version of the element on. -/
theorem of_known {since : Nat} (new : since ≤ known) {absent work : Codec α}
    (steady : Steady known work) :
    Steady known (isOlder since >>= fun older => if older then absent else work) := by
  intro wire
  obtain ⟨outcome, after, ran⟩ := steady wire
  refine ⟨outcome, after, fun version newer => ?_⟩
  have present : since ≤ (wire.atVersion version).cursor.version := Nat.le_trans new newer
  rw [run_of_known present, ran version newer]

theorem getNumber (primitive : Primitive) (index : Nat) :
    Steady known (getNumber primitive index) :=
  (slice _ _).map _

theorem putNumber (primitive : Primitive) (index pattern : Nat) :
    Steady known (putNumber primitive index pattern) :=
  putBytes _ _

theorem encodeText (charset : Text.Charset) (text : String) :
    Steady known (encodeText charset text) := by
  unfold Codec.encodeText
  cases charset.encode text with
  | ok bytes => exact pure bytes
  | error character => exact refuse _

/-- Work after the limit has moved. -/
theorem advance {start length : Nat} {next : Unit → Codec α} (steady : Steady known (next ())) :
    Steady known (Codec.ofOutcome (addSize start length) >>= fun limit =>
      Codec.setLimit limit >>= next) :=
  (ofOutcome _).bind fun limit => (setLimit limit).bind fun _ => steady

end Steady

section Accesses

variable {known : Nat}

theorem NumberField.read_steady {field : NumberField} (new : field.since ≤ known) (base : Nat) :
    Steady known (field.read base) :=
  .of_known new (.getNumber _ _)

theorem NumberField.access_steady {field : NumberField} (new : field.since ≤ known) (base : Nat)
    (access : FieldAccess) : Steady known (field.access base access) := by
  cases access with
  | read | readRaw => exact (read_steady new base).map _
  | write pattern => exact (Steady.putNumber _ _ _).silent
  | _ => exact .pure _

theorem ArrayField.access_steady {field : ArrayField} (new : field.since ≤ known) (base : Nat)
    (access : FieldAccess) : Steady known (field.access base access) := by
  have tested (index : Nat) : Steady known (field.testIndex index) := .ite (.pure _) (.refuse _)
  cases access with
  | readAt index => exact ((tested index).bind fun _ => .of_known new (.getNumber _ _)).map _
  | writeAt index pattern => exact ((tested index).bind fun _ => .putNumber _ _ _).silent
  | _ => exact .pure _

theorem TextField.read_steady {field : TextField} (new : field.since ≤ known) (base : Nat) :
    Steady known (field.read base) :=
  .of_known new ((Steady.slice _ _).map _)

theorem TextField.put_steady (field : TextField) (base : Nat) (source : List UInt8) :
    Steady known (field.put base source) := by
  refine (Steady.putBytes _ _).bind fun _ => ?_
  rw [fill_eq_putBytes]
  exact .putBytes _ _

theorem TextField.access_steady {field : TextField} (new : field.since ≤ known) (base : Nat)
    (access : FieldAccess) : Steady known (field.access base access) := by
  have elements : field.elements.since ≤ known := new
  unfold TextField.access
  split
  · exact (read_steady new base).map _
  · exact ((Steady.encodeText _ _).bind fun bytes => field.put_steady base bytes).silent
  · exact (field.put_steady base _).silent
  · exact (Steady.ite (.refuse _) (.of_known new ((Steady.slice _ _).map _))).map _
  · exact ArrayField.access_steady elements base access

theorem EnumField.access_steady {field : EnumField} (new : field.since ≤ known) (base : Nat)
    (access : FieldAccess) : Steady known (field.access base access) := by
  have raw : Steady known (field.readRaw base) := .of_known new (.getNumber _ _)
  cases access with
  | read => exact (raw.bind fun _ => .ofOutcome _).map _
  | readRaw => exact raw.map _
  | choose variant => exact (Steady.putNumber _ _ _).silent
  | _ => exact .pure _

theorem SetView.access_steady (view : SetView) (access : SetAccess) :
    Steady known (view.access access) := by
  have raw : Steady known view.raw := .getNumber _ _
  cases access with
  | raw => exact raw.map _
  | text =>
    rw [SetView.access, SetView.text_eq]
    exact (Steady.ite (.pure _) (raw.map _)).map _
  | clear => exact (Steady.putNumber _ _ _).silent
  | test choice =>
    simp only [SetView.access]
    cases view.type.choices.lookup choice with
    | none => exact .pure _
    | some bit => exact raw.map _
  | change choice value =>
    simp only [SetView.access]
    cases view.type.choices.lookup choice with
    | none => exact .pure _
    | some bit => exact (raw.bind fun _ => .putNumber _ _ _).silent

theorem Part.access_steady {part : Part} (new : part.isKnown known = true) (base : Nat)
    (access : FieldAccess) : Steady known (part.access base access) := by
  cases part with
  | number field => exact NumberField.access_steady (of_decide_eq_true new) base access
  | text field => exact TextField.access_steady (of_decide_eq_true new) base access
  | constantNumber name value =>
    cases access with
    | _ => exact .pure _
  | constantText constant =>
    cases access with
    | readAt index => exact (Steady.ofOutcome _).map _
    | _ => exact .pure _

theorem CompositeView.text_steady {view : CompositeView}
    (new : view.type.parts.all (Part.isKnown known) = true) : Steady known view.text := by
  rw [CompositeView.text_eq]
  refine (Steady.mapM fun part listed => ?_).map _
  have fresh := List.all_eq_true.mp new part (List.mem_of_mem_filter listed)
  cases part with
  | number field =>
    rw [view.entry_number]
    exact (NumberField.read_steady (of_decide_eq_true fresh) _).map _
  | text field =>
    rw [view.entry_text]
    exact (TextField.read_steady (of_decide_eq_true fresh) _).map _
  | constantNumber | constantText => exact .pure ""

theorem CompositeView.access_steady {view : CompositeView}
    (new : view.type.parts.all (Part.isKnown known) = true) (accesses : List CompositeAccess) :
    Steady known (view.access accesses) := by
  refine (Steady.mapM fun access _ => ?_).map _
  cases access with
  | offset | encodedLength => exact .pure _
  | text => exact (CompositeView.text_steady new).map _
  | part name access =>
    simp only [CompositeView.accessOne]
    cases found : view.type.parts.find? fun part => part.name == name with
    | none => exact .pure _
    | some part =>
      exact Part.access_steady (List.all_eq_true.mp new part (List.mem_of_find?_eq_some found)) _ _

theorem viewAt_steady {place : Nat → α} {since : Nat} {next : Option α → Codec β}
    (new : since ≤ known) (offset base : Nat)
    (steady : ∀ index, Steady known (next (some (place index)))) :
    Steady known (viewAt place since offset base >>= next) := by
  intro wire
  obtain ⟨outcome, after, ran⟩ := (Steady.ofOutcome (addSize base offset)).bind steady wire
  refine ⟨outcome, after, fun version newer => ?_⟩
  have present : since ≤ (wire.atVersion version).cursor.version := Nat.le_trans new newer
  rw [run_bind, viewAt, run_of_known present, ← run_bind, ← ran version newer]
  simp only [bind_assoc, pure_bind]

theorem VarField.length_steady {field : VarField} (new : field.since ≤ known) :
    Steady known field.length :=
  .of_known new (Steady.limit.bind fun _ => .getNumber _ _)

theorem VarField.consume_steady {field : VarField} (new : field.since ≤ known) :
    Steady known field.consume :=
  (length_steady new).bind fun _ => Steady.limit.bind fun _ => .advance (.pure _)

theorem VarField.bytes_steady {field : VarField} (new : field.since ≤ known) :
    Steady known field.bytes :=
  .of_known new ((consume_steady new).bind fun _ => .slice _ _)

theorem VarField.put_steady (field : VarField) (source : List UInt8) :
    Steady known (field.put source) :=
  .ite (.refuse _) (Steady.limit.bind fun _ => .advance
    ((Steady.putNumber _ _ _).bind fun _ => .putBytes _ _))

theorem VarField.access_steady {field : VarField} (new : field.since ≤ known)
    (access : FieldAccess) : Steady known (field.access access) := by
  have bytes := bytes_steady new
  cases access with
  | readText =>
    simp only [VarField.access]
    cases field.charset with
    | none => exact .pure _
    | some charset => exact (bytes.map _).map _
  | writeText text =>
    simp only [VarField.access]
    cases field.charset with
    | none => exact .pure _
    | some charset =>
      exact ((Steady.encodeText _ _).bind fun source => field.put_steady source).silent
  | readBytes => exact bytes.map _
  | writeBytes source => exact (field.put_steady source).silent
  | copy capacity => exact (bytes.map _).map _
  | length => exact (length_steady new).map _
  | skip => exact (Steady.of_known new ((consume_steady new).map _)).map _
  | _ => exact .pure _

theorem Member.access_steady {member : Member} (new : member.isKnown known = true) (base : Nat)
    (access : FieldAccess) : Steady known (member.access base access) := by
  cases member with
  | number field => exact NumberField.access_steady (of_decide_eq_true new) base access
  | array field => exact ArrayField.access_steady (of_decide_eq_true new) base access
  | text field => exact TextField.access_steady (of_decide_eq_true new) base access
  | enumeration field => exact EnumField.access_steady (of_decide_eq_true new) base access
  | constantEnum place type value =>
    cases access with
    | _ => exact .pure _
  | bitSet field => exact .pure _
  | composite field => exact .pure _

theorem GroupShape.openRead_steady {shape : GroupShape} (new : shape.since ≤ known) :
    Steady known shape.openRead :=
  .of_known new (Steady.limit.bind fun _ => (Steady.getNumber _ _).bind fun _ =>
    (Steady.getNumber _ _).bind fun _ => .advance (.pure _))

theorem GroupShape.openWrite_steady (shape : GroupShape) (count : Nat) :
    Steady known (shape.openWrite count) :=
  .ite (Steady.limit.bind fun _ => (Steady.putNumber _ _ _).bind fun _ =>
    (Steady.putNumber _ _ _).bind fun _ => .advance (.pure _)) (.refuse _)

theorem GroupView.next_steady (view : GroupView) : Steady known view.next := by
  rw [GroupView.next_eq]
  exact .ite (Steady.limit.bind fun _ => .advance (.pure _)) (.refuse _)

/-! ### Messages and groups -/

/-- What a message or group holds. -/
structure Contents where
  members : List Member
  groups : List GroupShape
  varData : List VarField

/-- What a group holds. -/
def GroupShape.contents (shape : GroupShape) : Contents :=
  ⟨shape.members, shape.groups, shape.varData⟩

/-- What a message holds. -/
def MessageShape.contents (shape : MessageShape) : Contents :=
  ⟨shape.members, shape.groups, shape.varData⟩

/-- What an open message or group holds. -/
def Element.contents (element : Element) : Contents :=
  ⟨element.members, element.groups, element.varData⟩

namespace Contents

/-- Whether a message of a version has the member of a given name. -/
def knowsMember (known : Nat) (contents : Contents) (name : String) : Bool :=
  (Member.find? contents.members name).all (Member.isKnown known)

/-- Whether a message of a version has the field of variable length of a given name. -/
def knowsVarData (known : Nat) (contents : Contents) (name : String) : Bool :=
  (contents.varData.find? fun field => field.name == name).all fun field =>
    decide (field.since ≤ known)

end Contents

theorem Element.access_steady {element : Element} {name : String}
    (member : element.contents.knowsMember known name = true)
    (varField : element.contents.knowsVarData known name = true) (access : FieldAccess) :
    Steady known (element.access name access) := by
  unfold Element.access
  split
  · rename_i found
    rw [Contents.knowsMember,
      show Member.find? element.contents.members name = _ from found] at member
    exact Member.access_steady member _ _
  · rename_i found
    rw [Contents.knowsVarData, show element.contents.varData.find? _ = _ from found] at varField
    exact VarField.access_steady (of_decide_eq_true varField) _
  · exact .pure _

theorem Element.accessSet_steady {element : Element} {name : String}
    (member : element.contents.knowsMember known name = true) (access : SetAccess) :
    Steady known (element.accessSet name access) := by
  unfold Element.accessSet
  split
  · rename_i field found
    rw [Contents.knowsMember,
      show Member.find? element.contents.members name = _ from found] at member
    rw [SetField.view?_eq]
    exact viewAt_steady (of_decide_eq_true member) _ _ fun index => SetView.access_steady _ access
  · exact .pure _

theorem Element.accessComposite_steady {element : Element} {name : String}
    (member : element.contents.knowsMember known name = true) (accesses : List CompositeAccess) :
    Steady known (element.accessComposite name accesses) := by
  unfold Element.accessComposite
  split
  · rename_i field found
    rw [Contents.knowsMember,
      show Member.find? element.contents.members name = _ from found] at member
    simp only [Option.all_some, Member.isKnown, Bool.and_eq_true] at member
    rw [CompositeField.view?_eq]
    exact viewAt_steady (of_decide_eq_true member.1) _ _ fun index =>
      CompositeView.access_steady member.2 accesses
  · exact .pure _

/-- Whether a question is about what a message holds, and not about its version or its text as a
whole. -/
def Query.isPlain : Query → Bool
  | version | text | rendered | writtenText => false
  | _ => true

theorem Element.answer_steady {element : Element} {queries : List Query}
    (plain : queries.all Query.isPlain = true) : Steady known (element.answer queries) := by
  refine (Steady.mapM fun query member => ?_).map _
  have plain := List.all_eq_true.mp plain query member
  cases query with
  | limit => exact Steady.limit.map _
  | capacity => exact Steady.capacity.map _
  | version | text | rendered | writtenText => cases plain
  | encodedLength =>
    cases element with
    | message view => exact (Steady.limit.bind fun _ => .ofOutcome _).map _
    | group shape view => exact .pure _
  | _ =>
    cases element with
    | _ => exact .pure _

end Accesses

end Codec

end Sbe
