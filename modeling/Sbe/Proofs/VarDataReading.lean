import Sbe.Proofs.Enclosure
import Sbe.Proofs.GroupIteration

/-!
**The ways of taking a value of variable length.**

A value at the limit can be passed over, taken as bytes, copied or taken as text. Each of the ways
finds the length for itself and moves the limit itself. They agree on both, so that what comes next
is found at the same place.

* `Wire.value`: the bytes that stand at the limit behind their length;
* `Wire.holds_value`: they stand there as they were written, whoever wrote them;
* `VarField.Yields`: what each way of taking a value does;
* `Demo.varData_ways_agree`: the fields of cars, orders and visits and of their groups.
-/

namespace Sbe

/-! ### The value at the limit -/

namespace Buffer

variable {buffer : Buffer} {start size : Nat}

theorem holds_bytesAt (inside : start + size ≤ buffer.capacity) :
    buffer.Holds start (buffer.bytesAt start size) := by
  refine ⟨buffer.toList.take start, (buffer.toList.drop start).drop size, ?_, ?_⟩
  · rw [bytesAt, List.take_append_drop, List.take_append_drop]
  · rw [List.length_take, length_toList]
    omega

theorem bytesAt_add (buffer : Buffer) (start first second : Nat) :
    buffer.bytesAt start (first + second) =
      buffer.bytesAt start first ++ buffer.bytesAt (start + first) second := by
  rw [bytesAt, bytesAt, bytesAt, List.take_add, List.drop_drop]

/-- A range of bytes is the form of the number it stands for. -/
theorem littleEndian_numberAt (inside : start + size ≤ buffer.capacity) :
    ByteOrder.littleEndian.bytes size (buffer.numberAt start size) = buffer.bytesAt start size := by
  refine ofLittleEndian_inj ?_ ?_
  · rw [ByteOrder.bytes_length, length_bytesAt inside]
  · exact (ofLittleEndian_littleEndian _ _).trans (Nat.mod_eq_of_lt (numberAt_lt inside))

end Buffer

namespace Wire

open Codec (VarField sizedBytes numberBytes)

/-- The length that stands at the limit. -/
def valueLength (wire : Wire) : Nat := wire.buffer.numberAt wire.cursor.limit VarField.headerLength

/-- The bytes behind the length at the limit, as many as it says. -/
def value (wire : Wire) : List UInt8 :=
  wire.buffer.bytesAt (wire.cursor.limit + VarField.headerLength) wire.valueLength

/-- Whether the value at the limit lies inside the buffer. -/
def HoldsValue (wire : Wire) : Prop :=
  wire.cursor.limit + VarField.headerLength + wire.valueLength ≤ wire.buffer.capacity

instance (wire : Wire) : Decidable wire.HoldsValue :=
  inferInstanceAs (Decidable (_ ≤ _))

variable {wire : Wire} (inside : wire.HoldsValue)
include inside

theorem length_value : wire.value.length = wire.valueLength := Buffer.length_bytesAt inside

theorem valueLength_lt : wire.valueLength < patternCount 4 :=
  Buffer.numberAt_lt (Nat.le_trans (Nat.le_add_right _ _) inside)

/-- The value stands at the limit behind its length. -/
theorem holds_value : wire.buffer.Holds wire.cursor.limit (sizedBytes wire.value) := by
  have header : numberBytes .uint32 wire.valueLength =
      wire.buffer.bytesAt wire.cursor.limit VarField.headerLength :=
    Buffer.littleEndian_numberAt (Nat.le_trans (Nat.le_add_right _ _) inside)
  rw [sizedBytes, length_value inside, header, value, ← Buffer.bytesAt_add]
  exact Buffer.holds_bytesAt (Nat.add_assoc _ _ _ ▸ inside)

end Wire

/-! ### Taking the value -/

namespace Codec

namespace VarField

/-- What asking for a value and each way of taking it do. -/
structure Yields (field : VarField) (wire : Wire) (value : List UInt8) : Prop where
  length : field.length.run wire = (.ok value.length, wire)
  skip : field.skip.run wire = (.ok value.length, wire.advance (headerLength + value.length))
  bytes : field.bytes.run wire = (.ok value, wire.advance (headerLength + value.length))
  copy : ∀ destination : List UInt8,
    (field.copy destination).run wire =
      (.ok (min value.length destination.length,
          value.take (min value.length destination.length) ++
            destination.drop (min value.length destination.length)),
        wire.advance (headerLength + value.length))
  text : ∀ charset, field.charset = some charset →
    (field.read charset).run wire =
      (.ok (charset.decode value), wire.advance (headerLength + value.length))

theorem yields {field : VarField} {wire : Wire} (known : field.since ≤ wire.cursor.version)
    (addressable : wire.IsAddressable) (inside : wire.HoldsValue) :
    field.Yields wire wire.value := by
  have holds := Wire.holds_value inside
  have short : wire.value.length < patternCount 4 := by
    rw [Wire.length_value inside]
    exact Wire.valueLength_lt inside
  have length : (sizedBytes wire.value).length = headerLength + wire.value.length :=
    length_sizedBytes _
  have small : wire.cursor.limit + (sizedBytes wire.value).length < wordBound := by
    have bound : wire.cursor.limit + headerLength + wire.valueLength ≤ wire.buffer.capacity :=
      inside
    rw [length, Wire.length_value inside, wordBound]
    rw [Wire.IsAddressable] at addressable
    omega
  -- Each way reads the same bytes at the limit, so each of them moves the limit past these.
  have run {α : Type} {work : Codec α} {result : α}
      (reads : Reads wire.cursor.version work (sizedBytes wire.value) result) :
      work.run wire = (.ok result, wire.advance (headerLength + wire.value.length)) :=
    length ▸ reads wire rfl holds small
  refine ⟨run_length known short holds small, run (skip_reads known short),
    run (bytes_reads known short), fun destination => ?_, fun charset _ => run (reads known short)⟩
  have kept : wire.value.take (min wire.value.length destination.length) =
      wire.value.take destination.length := by
    rw [Nat.min_comm, ← List.take_eq_take_min]
  have count : (wire.value.take destination.length).length =
      min wire.value.length destination.length := by
    rw [List.length_take, Nat.min_comm]
  rw [kept, ← count]
  exact run ((bytes_reads known short).map fun bytes =>
    ((bytes.take destination.length).length,
      bytes.take destination.length ++ destination.drop (bytes.take destination.length).length))

end VarField

end Codec

/-! ### The demonstration schema -/

namespace Demo

open Codec

/-- The elements of the demonstration schema: its messages, and its groups at some repetition. -/
def Belongs : Element → Prop
  | .message view => view.shape ∈ messages
  | .group shape _ => shape ∈ groupShapes

/-- Whether a field of variable length is the only one of its name. -/
def IsNamedAlone (members : List Member) (varData : List VarField) (field : VarField) : Prop :=
  (Member.find? members field.name).isNone = true ∧
    varData.find? (fun other => other.name == field.name) = some field

instance (members : List Member) (varData : List VarField) (field : VarField) :
    Decidable (IsNamedAlone members varData field) :=
  inferInstanceAs (Decidable (_ ∧ _))

theorem messages_named :
    ∀ shape ∈ messages, ∀ field ∈ shape.varData, IsNamedAlone shape.members shape.varData
      field := by
  decide

theorem groupShapes_named :
    ∀ shape ∈ groupShapes, ∀ field ∈ shape.varData, IsNamedAlone shape.members shape.varData
      field := by
  decide

variable {element : Element} {field : VarField}

theorem isNamedAlone (belongs : Belongs element) (member : field ∈ element.varData) :
    IsNamedAlone element.members element.varData field := by
  cases element with
  | message view => exact messages_named view.shape belongs field member
  | group shape view => exact groupShapes_named shape belongs field member

/-- A field that is the only one of its name is the one that is accessed by it. -/
theorem access_eq (alone : IsNamedAlone element.members element.varData field)
    (access : FieldAccess) : element.access field.name access = field.access access := by
  obtain ⟨other, found⟩ := alone
  rw [Element.access, Option.isNone_iff_eq_none.mp other, Element.varField?, found]

/-- **The ways of taking a value of variable length agree.** Take any field of variable length of a
demo message, or of a repetition of a demo group, that the acting version knows, and any buffer and
limit with the value inside the buffer. The field is reached by its name. Its length is the one that
stands at the limit, and asking for it leaves the limit; the value is as many bytes as it says, from
behind the length on. Passing over it gives the length and taking it as bytes gives the bytes.
Copying it fills as much of the destination as it can and leaves the rest, and taking it as text
decodes it. All four move the limit past the length and the value, however long the destination
is. -/
theorem varData_ways_agree (belongs : Belongs element) (member : field ∈ element.varData)
    {wire : Wire} (known : field.since ≤ wire.cursor.version) (addressable : wire.IsAddressable)
    (inside : wire.HoldsValue) :
    (∀ access, element.access field.name access = field.access access) ∧
    field.Yields wire wire.value ∧ wire.value.length = wire.valueLength :=
  ⟨access_eq (isNamedAlone belongs member), VarField.yields known addressable inside,
    Wire.length_value inside⟩

/-- A value of three bytes with two bytes before it and one behind it. -/
def cycle : Wire := ⟨.ofList [9, 9, 3, 0, 0, 0, 85, 114, 98, 7], ⟨2, 1⟩⟩

theorem cycle_ways_agree :
    FuelFigure.usageDescriptionField.skip.run cycle = (.ok 3, cycle.advance 7) ∧
      (FuelFigure.usageDescriptionField.copy [1, 2]).run cycle =
        (.ok (2, [85, 114]), cycle.advance 7) ∧
      (FuelFigure.usageDescriptionField.copy [1, 2, 3, 4]).run cycle =
        (.ok (3, [85, 114, 98, 4]), cycle.advance 7) ∧
      (FuelFigure.usageDescriptionField.read .ascii).run cycle = (.ok "Urb", cycle.advance 7) := by
  let figures : GroupView := { name := "fuelFigures", blockLength := 6, count := 1 }
  have belongs : Belongs (.group FuelFigure.shape figures) := List.mem_cons_self
  have member : FuelFigure.usageDescriptionField ∈
      (Element.group FuelFigure.shape figures).varData := by
    decide
  have addressable : cycle.IsAddressable := by
    show (10 : Nat) < 9223372036854775808
    decide
  have value : cycle.value = [85, 114, 98] := by decide +kernel
  obtain ⟨_, yields, _⟩ := varData_ways_agree belongs member (Nat.zero_le _) addressable
    (by decide +kernel)
  rw [value] at yields
  exact ⟨yields.skip, yields.copy [1, 2], yields.copy [1, 2, 3, 4], yields.text .ascii rfl⟩

end Demo

end Sbe
