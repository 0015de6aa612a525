import Sbe.Proofs.CarBytes

/-!
**Cars are read back as they were written.**

Writing a car behind its header puts its bytes at the start of the buffer and nothing else, in
whatever order the fields of the block are written. Reading by the header gives the car back, with
its codes cut to the length of their fields.

* `Car.length_bytes_lt`: no car that its message can hold is too long for a buffer;
* `Car.run_encodeInOrder`, `Car.run_decode`: what writing and reading do;
* `Car.encode_then_decode`: both together.
-/

namespace Sbe.Demo

open Sbe.Codec Sbe.Text
open Sbe.Codec.MessageShape (fresh)

/-! ### The length of a car -/

/-- The length of a group with a bound on the length of each repetition. -/
theorem length_group_le {α : Type} {block tail : α → List UInt8} {items : List α} {most : Nat}
    (each : ∀ item ∈ items, (block item).length + (tail item).length ≤ most)
    (count : items.length ≤ usualCount) (size : Nat) :
    (dimensionBytes size items.length ++ repetitions block tail items).length ≤
      4 + usualCount * most := by
  rw [List.length_append, length_dimensionBytes]
  exact Nat.add_le_add_left
    (Nat.le_trans (length_repetitions_le each) (Nat.mul_le_mul_right most count)) 4

theorem FuelFigure.length_groupBytes_le {figures : List FuelFigure}
    (fits : ∀ figure ∈ figures, figure.Representable) (count : figures.length ≤ usualCount) :
    (groupBytes figures).length ≤ 4 + usualCount * (10 + usualLength) := by
  refine length_group_le (fun figure member => ?_) count _
  have short := (fits figure member).short
  rw [length_block, tail, length_sizedBytes, Charset.length_oneByte]
  show 6 + (4 + figure.usageDescription.length) ≤ 10 + usualLength
  omega

theorem Acceleration.length_groupBytes_le {accelerations : List Acceleration}
    (count : accelerations.length ≤ usualCount) :
    (groupBytes accelerations).length ≤ 4 + usualCount * 6 :=
  length_group_le (fun acceleration _ => Nat.le_of_eq acceleration.length_block) count _

theorem PerformanceFigure.length_groupBytes_le {figures : List PerformanceFigure}
    (fits : ∀ figure ∈ figures, figure.Representable) (count : figures.length ≤ usualCount) :
    (groupBytes figures).length ≤ 4 + usualCount * (5 + usualCount * 6) := by
  refine length_group_le (fun figure member => ?_) count _
  have short := Acceleration.length_groupBytes_le (fits figure member)
  rw [length_block, tail]
  show 1 + _ ≤ _
  omega

namespace Car

/-- The bytes of a car behind its header. -/
def bytes (car : Car) : List UInt8 := shape.header.bytes ++ (car.block ++ car.tail)

theorem length_bytes (car : Car) : car.bytes.length = 50 + car.tail.length := by
  rw [bytes, List.length_append, List.length_append, Header.length_bytes, length_block]
  show 8 + (42 + car.tail.length) = 50 + car.tail.length
  omega

/-- A car that its message can hold is not too long for a buffer. -/
theorem length_bytes_lt {car : Car} (fits : car.Representable) : car.bytes.length < wordBound := by
  have fuel := FuelFigure.length_groupBytes_le fits.fuelFigures fits.fuelCount
  have performance :=
    PerformanceFigure.length_groupBytes_le fits.performanceFigures fits.performanceCount
  have manufacturer := fits.manufacturer
  have model := fits.model
  have activationCode := fits.activationCode
  rw [length_bytes, tail, varBytes, List.length_append, List.length_append, List.length_append,
    List.length_append, length_sizedBytes, length_sizedBytes, length_sizedBytes]
  simp only [usualCount, usualLength, VarField.headerLength, wordBound] at *
  omega

/-! ### Writing -/

/-- The wire after a car has been written or read, with other bytes behind it. -/
def written (car : Car) (behind : List UInt8) : Wire :=
  ⟨.ofList (car.bytes ++ behind), ⟨car.bytes.length, schemaVersion⟩⟩

/-- Writes a car behind its header, the fields of its block in a given order; gives the number of
bytes written. -/
def encodeInOrder (car : Car) (order : List BlockField) : Codec Nat := do
  let view ← shape.openWithHeader 0
  car.writeInOrder order view
  pure (headerType.encodedLength + (← view.encodedLength))

theorem encode_eq (car : Car) : car.encode = car.encodeInOrder usualOrder := by
  simp only [encode, encodeInOrder, write_eq]

/-- The header, the block and the tail stand one after another. -/
theorem overwrite_bytes (car : Car) {buffer : Buffer} (room : car.bytes.length ≤ buffer.capacity) :
    ((buffer.overwrite 0 shape.header.bytes).overwrite 8 car.block).overwrite 50 car.tail =
      .ofList (car.bytes ++ buffer.toList.drop car.bytes.length) := by
  rw [← Buffer.overwrite_zero room, bytes, Buffer.overwrite_append, Buffer.overwrite_append,
    length_block]
  rfl

/-- The wire on which a car has been opened for writing. -/
def opened (buffer : Buffer) : Wire :=
  ⟨buffer.overwrite 0 shape.header.bytes, ⟨50, schemaVersion⟩⟩

theorem run_writeInOrder {car : Car} (fits : car.Representable) {order : List BlockField}
    (each : order.Perm BlockField.all) {buffer : Buffer}
    (room : car.bytes.length ≤ buffer.capacity) :
    (car.writeInOrder order ⟨shape, 8, 42⟩).run (opened buffer) =
      (.ok (), car.written (buffer.toList.drop car.bytes.length)) := by
  have small := length_bytes_lt fits
  rw [length_bytes] at small
  have inside : 50 + car.tail.length ≤ (opened buffer).buffer.capacity := by
    rw [← length_bytes, opened, Buffer.capacity_overwrite]
    exact room
  rw [writeInOrder_fills fits each ⟨shape, 8, 42⟩ (opened buffer)
    (by rw [length_block]; exact Nat.le_refl _) inside small, written, ← overwrite_bytes car room,
    length_bytes]
  rfl

/-- Writing puts the bytes of a car at the start of the buffer, and leaves the bytes behind them. -/
theorem run_encodeInOrder {car : Car} (fits : car.Representable) {order : List BlockField}
    (each : order.Perm BlockField.all) {buffer : Buffer}
    (room : car.bytes.length ≤ buffer.capacity) :
    (car.encodeInOrder order).run (fresh buffer) =
      (.ok car.bytes.length, car.written (buffer.toList.drop car.bytes.length)) := by
  have length := car.length_bytes
  have opening : (shape.openWithHeader 0).run (fresh buffer) =
      (.ok ⟨shape, 8, 42⟩, opened buffer) :=
    MessageShape.run_openWithHeader (by show 8 ≤ buffer.capacity; omega) (by decide)
  have measured : (⟨shape, 8, 42⟩ : MessageView).encodedLength.run
      (car.written (buffer.toList.drop car.bytes.length)) =
      (.ok (car.bytes.length - 8), car.written (buffer.toList.drop car.bytes.length)) :=
    MessageView.run_encodedLength (by show 8 ≤ car.bytes.length; omega)
  have total : headerType.encodedLength + (car.bytes.length - 8) = car.bytes.length := by
    show 8 + _ = _
    omega
  rw [encodeInOrder, run_bind_of_ok opening, run_bind_of_ok (run_writeInOrder fits each room),
    run_bind_of_ok measured, run_pure, total]

/-! ### Reading -/

/-- Reads a car as its header says. -/
def decode : Codec Car := do read (← shape.openByHeader)

theorem run_decode {car : Car} (fits : car.Representable) (behind : List UInt8) :
    decode.run (fresh (car.written behind).buffer) = (.ok car.asRead, car.written behind) := by
  have small := length_bytes_lt fits
  rw [length_bytes] at small
  have holds : (car.written behind).buffer.Holds 0 car.bytes := ⟨[], behind, rfl, rfl⟩
  have block := holds.right
  rw [Header.length_bytes] at block
  have tail := block.right
  rw [length_block] at tail
  have opening : shape.openByHeader.run (fresh (car.written behind).buffer) =
      (.ok ⟨shape, 8, 42⟩, ⟨(car.written behind).buffer, ⟨50, schemaVersion⟩⟩) :=
    MessageShape.run_openByHeader (by decide) holds.left (by decide)
  have scanned := read_scans (Nat.le_refl _) fits.toHasAsciiCodes fits.toHasShortValues
    (FuelFigure.group_reads fits.fuelFigures fits.fuelCount)
    (PerformanceFigure.group_reads fits.performanceFigures fits.performanceCount) ⟨shape, 8, 42⟩
    ⟨(car.written behind).buffer, ⟨50, schemaVersion⟩⟩ rfl block.left
    (by rw [length_block]; decide) tail small
  have final : (⟨(car.written behind).buffer, ⟨50, schemaVersion⟩⟩ : Wire).advance car.tail.length =
      car.written behind := by
    rw [written, length_bytes]
    rfl
  rw [decode, run_bind_of_ok opening, scanned]
  exact congrArg (Prod.mk _) final

/-- The codes of a car fit into their fields and have no NUL. -/
structure HasWholeCodes (car : Car) : Prop where
  vehicleCode : car.vehicleCode.length ≤ 6 ∧ Char.ofNat 0 ∉ car.vehicleCode.toList
  manufacturerCode : car.engine.manufacturerCode.length ≤ 3 ∧
    Char.ofNat 0 ∉ car.engine.manufacturerCode.toList

theorem asRead_eq_self {car : Car} (codes : car.HasWholeCodes) : car.asRead = car := by
  rw [asRead, Engine.asRead, shortened_eq_self codes.vehicleCode.1 codes.vehicleCode.2,
    shortened_eq_self codes.manufacturerCode.1 codes.manufacturerCode.2]

/-! ### Both together -/

/-- A car that its message can hold is written without an error into any buffer that is long enough,
in any order of the fields of its block, and only its bytes change. Reading them gives all its
values, where the codes keep what fits into their fields; codes that fit are kept whole. -/
theorem encode_then_decode {car : Car} (fits : car.Representable) {buffer : Buffer}
    (room : car.bytes.length ≤ buffer.capacity) :
    car.encode.run (fresh buffer) =
        (.ok car.bytes.length, car.written (buffer.toList.drop car.bytes.length)) ∧
      (∀ order : List BlockField, order.Perm BlockField.all →
        (car.encodeInOrder order).run (fresh buffer) = car.encode.run (fresh buffer)) ∧
      (∀ behind, decode.run (fresh (car.written behind).buffer) =
        (.ok car.asRead, car.written behind)) ∧
      (car.HasWholeCodes → car.asRead = car) := by
  have encoded : car.encode.run (fresh buffer) =
      (.ok car.bytes.length, car.written (buffer.toList.drop car.bytes.length)) := by
    rw [encode_eq]
    exact run_encodeInOrder fits usualOrder_perm room
  refine ⟨encoded, fun order each => ?_, run_decode fits, asRead_eq_self⟩
  rw [encoded]
  exact run_encodeInOrder fits each room

/-- A buffer with room for the example. -/
def sampleBuffer : Buffer := .ofList (List.replicate 256 0)

theorem sample_representable : sample.Representable where
  vehicleCode := by decide
  manufacturerCode := by decide
  manufacturer := by decide
  model := by decide
  activationCode := by decide
  fuelCount := by decide
  fuelFigures := by
    have each : ∀ figure ∈ sample.fuelFigures,
        IsAscii figure.usageDescription ∧ figure.usageDescription.length ≤ usualLength := by decide
    exact fun figure member => ⟨(each figure member).1, (each figure member).2⟩
  performanceCount := by decide
  performanceFigures := by
    show ∀ figure ∈ sample.performanceFigures, figure.accelerations.length ≤ usualCount
    decide

theorem sample_encode_then_decode :
    ∃ wire, sample.encode.run (fresh sampleBuffer) = (.ok 204, wire) ∧
      decode.run (fresh wire.buffer) = (.ok sample, wire) := by
  have size : sample.bytes.length = 204 := by decide +kernel
  have room : sample.bytes.length ≤ sampleBuffer.capacity := by
    rw [size]
    decide +kernel
  obtain ⟨encoded, -, decoded, whole⟩ := encode_then_decode sample_representable room
  have codes : sample.HasWholeCodes := ⟨by decide, by decide⟩
  rw [whole codes] at decoded
  rw [size] at encoded
  exact ⟨_, encoded, decoded _⟩

end Car

end Sbe.Demo
