import Sbe.Demo.Car
import Sbe.Proofs.PartBytes

/-!
**The bytes of cars.**

A car is a block of 42 bytes, two groups and three values of variable length. The bytes are given
for each level on its own; writing puts them and reading finds the values in them, from the
innermost group outwards.

* `FuelFigure.group_appends`, `PerformanceFigure.group_appends`: writing the groups;
* `FuelFigure.group_reads`, `PerformanceFigure.group_reads`: reading them back;
* `Car.writeFields_puts`: the fields of the block may be written in any order;
* `Car.writeInOrder_fills`, `Car.read_scans`: writing and reading a whole car.
-/

namespace Sbe.Demo

open Sbe.Codec Sbe.Text
open Sbe.Text.Charset (oneByte)

variable {version : Nat}

/-! ### Fuel figures -/

namespace FuelFigure

/-- The bytes of the block of a figure. -/
def block (figure : FuelFigure) : List UInt8 :=
  numberBytes .uint16 figure.speed.toNat ++ numberBytes .float figure.mpg.toNat

/-- The bytes that follow the block of a figure. -/
def tail (figure : FuelFigure) : List UInt8 := sizedBytes (oneByte figure.usageDescription.toList)

/-- The bytes of the group of figures. -/
def groupBytes (figures : List FuelFigure) : List UInt8 :=
  dimensionBytes shape.blockLength figures.length ++ repetitions block tail figures

/-- The description of a figure has seven bits a character and is not too long. -/
structure Representable (figure : FuelFigure) : Prop where
  ascii : IsAscii figure.usageDescription
  short : figure.usageDescription.length ≤ usualLength

theorem length_block (figure : FuelFigure) : figure.block.length = shape.blockLength := by
  rw [block, List.length_append, length_numberBytes, length_numberBytes]
  rfl

theorem write_fills {figure : FuelFigure} (fits : figure.Representable) (view : GroupView) :
    Fills (write view figure) view.offset figure.block figure.tail := by
  have numbers : Puts (do
      speedField.write view.offset figure.speed.toNat
      mpgField.write view.offset figure.mpg.toNat) view.offset figure.block :=
    (NumberField.puts rfl _).bind (NumberField.puts rfl _)
  have description : Appends (usageDescriptionField.write .ascii figure.usageDescription)
      figure.tail := VarField.appends_ascii fits.ascii fits.short
  have fills := numbers.bind_appends description
  rwa [bind_assoc] at fills

theorem read_scans {figure : FuelFigure} (fits : figure.Representable) (view : GroupView) :
    Scans version (read view) view.offset figure.block figure.tail figure := by
  have description : Reads version (usageDescriptionField.read .ascii) figure.tail
      figure.usageDescription :=
    VarField.reads_ascii (Nat.zero_le _) fits.ascii (Nat.lt_of_le_of_lt fits.short (by decide))
  refine Gets.bind_scans (NumberField.gets (Nat.zero_le _) rfl figure.speed.toNat_lt) ?_
  refine Gets.bind_reads (NumberField.gets (Nat.zero_le _) rfl figure.mpg.toNat_lt) ?_
  rw [UInt16.ofNat_toNat, UInt32.ofNat_toNat]
  exact description.map _

theorem group_appends {figures : List FuelFigure} (fits : ∀ figure ∈ figures, figure.Representable)
    (count : figures.length ≤ usualCount) :
    Appends (shape.writeAll figures write) (groupBytes figures) :=
  GroupShape.writeAll_appends (fun figure member => write_fills (fits figure member))
    (fun figure _ => figure.length_block) (Nat.zero_le _) count (Nat.le_succ_of_le count)

theorem group_reads {figures : List FuelFigure} (fits : ∀ figure ∈ figures, figure.Representable)
    (count : figures.length ≤ usualCount) :
    Reads version (shape.readAll read) (groupBytes figures) figures :=
  GroupShape.readAll_reads_items (Nat.zero_le _)
    (fun figure member => read_scans (fits figure member)) (fun figure _ => figure.length_block)
    (by decide) (Nat.lt_of_le_of_lt count (by decide))

end FuelFigure

/-! ### Performance figures -/

namespace Acceleration

/-- The bytes of the block of an acceleration, which nothing follows. -/
def block (acceleration : Acceleration) : List UInt8 :=
  numberBytes .uint16 acceleration.mph.toNat ++ numberBytes .float acceleration.seconds.toNat

/-- The bytes of the group of accelerations. -/
def groupBytes (accelerations : List Acceleration) : List UInt8 :=
  dimensionBytes shape.blockLength accelerations.length ++
    repetitions block (fun _ => []) accelerations

theorem length_block (acceleration : Acceleration) :
    acceleration.block.length = shape.blockLength := by
  rw [block, List.length_append, length_numberBytes, length_numberBytes]
  rfl

theorem write_puts (acceleration : Acceleration) (view : GroupView) :
    Puts (write view acceleration) view.offset acceleration.block :=
  (NumberField.puts rfl _).bind (NumberField.puts rfl _)

theorem read_gets (acceleration : Acceleration) (view : GroupView) :
    Gets version (read view) view.offset acceleration.block acceleration := by
  refine Gets.bind (NumberField.gets (Nat.zero_le _) rfl acceleration.mph.toNat_lt) ?_
  have seconds : Gets version (secondsField.read view.offset) (view.offset + 2)
      (numberBytes .float acceleration.seconds.toNat) acceleration.seconds.toNat :=
    NumberField.gets (Nat.zero_le _) rfl acceleration.seconds.toNat_lt
  have read := seconds.map fun pattern => (⟨acceleration.mph, .ofNat pattern⟩ : Acceleration)
  rw [UInt32.ofNat_toNat] at read
  rw [UInt16.ofNat_toNat]
  exact read

theorem group_appends {accelerations : List Acceleration}
    (count : accelerations.length ≤ usualCount) :
    Appends (shape.writeAll accelerations write) (groupBytes accelerations) :=
  GroupShape.writeAll_appends (fun acceleration _ view => (acceleration.write_puts view).fills)
    (fun acceleration _ => acceleration.length_block) (Nat.zero_le _) count
    (Nat.le_succ_of_le count)

theorem group_reads {accelerations : List Acceleration}
    (count : accelerations.length ≤ usualCount) :
    Reads version (shape.readAll read) (groupBytes accelerations) accelerations :=
  GroupShape.readAll_reads_items (Nat.zero_le _)
    (fun acceleration _ view => (acceleration.read_gets view).scans)
    (fun acceleration _ => acceleration.length_block) (by decide)
    (Nat.lt_of_le_of_lt count (by decide))

end Acceleration

namespace PerformanceFigure

/-- The bytes of the block of a figure. -/
def block (figure : PerformanceFigure) : List UInt8 := numberBytes .uint8 figure.octaneRating.toNat

/-- The bytes that follow the block of a figure. -/
def tail (figure : PerformanceFigure) : List UInt8 := Acceleration.groupBytes figure.accelerations

/-- The bytes of the group of figures. -/
def groupBytes (figures : List PerformanceFigure) : List UInt8 :=
  dimensionBytes shape.blockLength figures.length ++ repetitions block tail figures

/-- A figure does not have too many accelerations. -/
def Representable (figure : PerformanceFigure) : Prop := figure.accelerations.length ≤ usualCount

theorem length_block (figure : PerformanceFigure) : figure.block.length = shape.blockLength :=
  length_numberBytes _ _

theorem write_fills {figure : PerformanceFigure} (fits : figure.Representable) (view : GroupView) :
    Fills (write view figure) view.offset figure.block figure.tail :=
  (NumberField.puts rfl _).bind_appends (Acceleration.group_appends fits)

theorem read_scans {figure : PerformanceFigure} (fits : figure.Representable) (view : GroupView) :
    Scans version (read view) view.offset figure.block figure.tail figure := by
  refine Gets.bind_reads (NumberField.gets (Nat.zero_le _) rfl figure.octaneRating.toNat_lt) ?_
  rw [UInt8.ofNat_toNat]
  exact (Acceleration.group_reads fits).map _

theorem group_appends {figures : List PerformanceFigure}
    (fits : ∀ figure ∈ figures, figure.Representable) (count : figures.length ≤ usualCount) :
    Appends (shape.writeAll figures write) (groupBytes figures) :=
  GroupShape.writeAll_appends (fun figure member => write_fills (fits figure member))
    (fun figure _ => figure.length_block) (Nat.zero_le _) count (Nat.le_succ_of_le count)

theorem group_reads {figures : List PerformanceFigure}
    (fits : ∀ figure ∈ figures, figure.Representable) (count : figures.length ≤ usualCount) :
    Reads version (shape.readAll read) (groupBytes figures) figures :=
  GroupShape.readAll_reads_items (Nat.zero_le _)
    (fun figure member => read_scans (fits figure member)) (fun figure _ => figure.length_block)
    (by decide) (Nat.lt_of_le_of_lt count (by decide))

end PerformanceFigure

/-! ### The block of a car -/

namespace Car

/-- The fields of the block of a car. -/
inductive BlockField where
  | serialNumber
  | modelYear
  | available
  | code
  | someNumbers
  | vehicleCode
  | extras
  | engine
  | cupHolderCount
deriving DecidableEq

namespace BlockField

/-- The fields in the order of the schema. -/
def all : List BlockField :=
  [serialNumber, modelYear, available, code, someNumbers, vehicleCode, extras, engine,
    cupHolderCount]

/-- Where a field stands in the block. -/
def offset : BlockField → Nat
  | serialNumber => serialNumberField.offset
  | modelYear => modelYearField.offset
  | available => availableField.offset
  | code => codeField.offset
  | someNumbers => someNumbersField.offset
  | vehicleCode => vehicleCodeField.offset
  | extras => extrasField.offset
  | engine => engineField.offset
  | cupHolderCount => cupHolderCountField.offset

/-- The number of bytes of a field. -/
def size : BlockField → Nat
  | serialNumber => 8
  | modelYear => 2
  | available => 1
  | code => 1
  | someNumbers => 16
  | vehicleCode => 6
  | extras => 1
  | engine => 6
  | cupHolderCount => 1

theorem inside (field : BlockField) : field.offset + field.size ≤ shape.blockLength := by
  cases field <;> decide

/-- No two fields share a byte. -/
theorem apart {field other : BlockField} (differ : field ≠ other) :
    field.offset + field.size ≤ other.offset ∨ other.offset + other.size ≤ field.offset := by
  revert differ
  cases field <;> cases other <;> decide

end BlockField

/-- The bit pattern of one of the four numbers. -/
def numberAt (car : Car) (index : Nat) : Nat := (car.someNumbers.toList[index]?.getD 0).toNat

/-- Writes one field of the block. -/
def writeField (car : Car) (base : Nat) : BlockField → Codec Unit
  | .serialNumber => serialNumberField.write base car.serialNumber.toNat
  | .modelYear => modelYearField.write base car.modelYear.toNat
  | .available => availableField.write base car.available
  | .code => codeField.write base car.code
  | .someNumbers => (List.range 4).forM fun index =>
      someNumbersField.writeAt base index (car.numberAt index)
  | .vehicleCode => vehicleCodeField.write base car.vehicleCode
  | .extras => do car.extras.write (← extrasField.view base)
  | .engine => do car.engine.write (← engineField.view base)
  | .cupHolderCount => cupHolderCountField.write base car.cupHolderCount.toNat

/-- The bytes of one field of the block. -/
def fieldBytes (car : Car) : BlockField → List UInt8
  | .serialNumber => numberBytes .uint64 car.serialNumber.toNat
  | .modelYear => numberBytes .uint16 car.modelYear.toNat
  | .available => numberBytes booleanType.primitive car.available.raw
  | .code => numberBytes modelType.primitive car.code.raw
  | .someNumbers => (List.range 4).flatMap fun index => numberBytes .uint32 (car.numberAt index)
  | .vehicleCode => padded 6 (oneByte car.vehicleCode.toList)
  | .extras => car.extras.bytes
  | .engine => car.engine.bytes
  | .cupHolderCount => numberBytes .uint8 car.cupHolderCount.toNat

/-- The bytes of the block. -/
def block (car : Car) : List UInt8 := BlockField.all.flatMap car.fieldBytes

/-- The codes of a car have seven bits a character. -/
structure HasAsciiCodes (car : Car) : Prop where
  vehicleCode : IsAscii car.vehicleCode
  manufacturerCode : IsAscii car.engine.manufacturerCode

theorem length_fieldBytes (car : Car) (field : BlockField) :
    (car.fieldBytes field).length = field.size := by
  cases field
  case someNumbers =>
    simp [fieldBytes, List.length_flatMap, List.map_const', BlockField.size, Primitive.size]
  case vehicleCode => exact length_padded _ _
  case engine => simp [fieldBytes, Engine.bytes, BlockField.size, Primitive.size]
  all_goals exact length_numberBytes _ _

theorem length_block (car : Car) : car.block.length = shape.blockLength := by
  simp [block, BlockField.all, length_fieldBytes, BlockField.size, shape]

theorem writeField_puts {car : Car} (codes : car.HasAsciiCodes) (base : Nat) (field : BlockField) :
    Puts (car.writeField base field) (base + field.offset) (car.fieldBytes field) := by
  cases field with
  | serialNumber => exact NumberField.puts rfl _
  | modelYear => exact NumberField.puts rfl _
  | available => exact EnumField.puts rfl _
  | code => exact EnumField.puts rfl _
  | someNumbers => exact someNumbersField.forM_puts base car.numberAt (by decide)
  | vehicleCode => exact TextField.puts (Charset.encode_ascii codes.vehicleCode) rfl
  | extras => exact (car.extras.write_puts _).after_view fun small => extrasField.run_view small
  | engine =>
    exact (Engine.write_puts codes.manufacturerCode _).after_view
      fun small => engineField.run_view small
  | cupHolderCount => exact NumberField.puts rfl _

/-- The wire with one field of the block put on it. -/
def putField (car : Car) (base : Nat) (wire : Wire) (field : BlockField) : Wire :=
  wire.put (base + field.offset) (car.fieldBytes field)

theorem putField_comm (car : Car) (base : Nat) (wire : Wire) (field other : BlockField) :
    car.putField base (car.putField base wire field) other =
      car.putField base (car.putField base wire other) field := by
  -- a field may stand twice in a list; then both orders are the same
  by_cases same : field = other
  · rw [same]
  · refine wire.put_comm ?_
    have apart := BlockField.apart same
    rw [length_fieldBytes, length_fieldBytes]
    omega

theorem run_writeFields {car : Car} (codes : car.HasAsciiCodes) {base : Nat} {wire : Wire}
    (room : base + shape.blockLength ≤ wire.buffer.capacity)
    (small : base + shape.blockLength < wordBound) (fields : List BlockField) :
    (fields.forM (car.writeField base)).run wire =
      (.ok (), fields.foldl (car.putField base) wire) := by
  induction fields generalizing wire with
  | nil => rfl
  | cons field rest ih =>
    have inside := field.inside
    have put := car.writeField_puts codes base field wire
      (by rw [length_fieldBytes]; omega) (by rw [length_fieldBytes]; omega)
    show (car.writeField base field >>= fun _ => rest.forM (car.writeField base)).run wire = _
    rw [run_bind_of_ok put, ih (by rwa [Wire.buffer_put, Buffer.capacity_overwrite])]
    rfl

theorem foldl_putField_all (car : Car) (base : Nat) (wire : Wire) :
    BlockField.all.foldl (car.putField base) wire = wire.put base car.block := by
  simp only [BlockField.all, List.foldl_cons, List.foldl_nil, block, List.flatMap_cons,
    List.flatMap_nil, List.append_nil, Wire.put_append, length_fieldBytes, Nat.add_assoc]
  rfl

/-- The fields of the block may be written in any order. -/
theorem writeFields_puts {car : Car} (codes : car.HasAsciiCodes) (base : Nat)
    {order : List BlockField} (each : order.Perm BlockField.all) :
    Puts (order.forM (car.writeField base)) base car.block := by
  intro wire room small
  rw [length_block] at room small
  have same : order.foldl (car.putField base) wire =
      BlockField.all.foldl (car.putField base) wire :=
    each.foldl_eq' (fun field _ other _ wire => car.putField_comm base wire field other) wire
  rw [run_writeFields codes room small, same, foldl_putField_all]

/-- The order in which `writeBlock` writes the fields. -/
def usualOrder : List BlockField :=
  [.serialNumber, .modelYear, .available, .code, .cupHolderCount, .someNumbers, .vehicleCode,
    .extras, .engine]

theorem usualOrder_perm : usualOrder.Perm BlockField.all := by decide

theorem writeBlock_eq (car : Car) (base : Nat) :
    car.writeBlock base = usualOrder.forM (car.writeField base) := by
  simp only [writeBlock, usualOrder, List.forM_eq_forM, List.forM_cons, List.forM_nil, writeField,
    bind_assoc, bind_pure_unit]
  rfl

/-! ### Cars -/

/-- The bytes of the values of variable length. -/
def varBytes (car : Car) : List UInt8 :=
  sizedBytes (Utf8.encode car.manufacturer.toList) ++
    (sizedBytes (Utf8.encode car.model.toList) ++ sizedBytes car.activationCode)

/-- The bytes that follow the block. -/
def tail (car : Car) : List UInt8 :=
  FuelFigure.groupBytes car.fuelFigures ++
    (PerformanceFigure.groupBytes car.performanceFigures ++ car.varBytes)

/-- The values of variable length are not too long. -/
structure HasShortValues (car : Car) : Prop where
  manufacturer : (Utf8.encode car.manufacturer.toList).length ≤ usualLength
  model : (Utf8.encode car.model.toList).length ≤ usualLength
  activationCode : car.activationCode.length ≤ usualLength

/-- A car that its message can hold: the codes and descriptions are ASCII, and no group or value of
variable length is too long. -/
structure Representable (car : Car) : Prop extends car.HasAsciiCodes, car.HasShortValues where
  fuelCount : car.fuelFigures.length ≤ usualCount
  fuelFigures : ∀ figure ∈ car.fuelFigures, figure.Representable
  performanceCount : car.performanceFigures.length ≤ usualCount
  performanceFigures : ∀ figure ∈ car.performanceFigures, figure.Representable

/-- A car as it is read back: the fields of its codes keep six and three characters. -/
def asRead (car : Car) : Car :=
  { car with vehicleCode := shortened 6 car.vehicleCode, engine := car.engine.asRead }

/-- Writes what follows the block. -/
def writeTail (car : Car) : Codec Unit := do
  FuelFigure.shape.writeAll car.fuelFigures FuelFigure.write
  PerformanceFigure.shape.writeAll car.performanceFigures PerformanceFigure.write
  manufacturerField.write .utf8 car.manufacturer
  modelField.write .utf8 car.model
  activationCodeField.put car.activationCode

theorem writeTail_appends {car : Car} (fits : car.Representable) :
    Appends car.writeTail car.tail := by
  refine (FuelFigure.group_appends fits.fuelFigures fits.fuelCount).bind ?_
  refine (PerformanceFigure.group_appends fits.performanceFigures fits.performanceCount).bind ?_
  refine (VarField.appends rfl fits.manufacturer).bind ?_
  exact (VarField.appends rfl fits.model).bind (VarField.put_appends fits.activationCode)

/-- Writes a car, the fields of its block in a given order. -/
def writeInOrder (car : Car) (order : List BlockField) (view : MessageView) : Codec Unit := do
  order.forM (car.writeField view.offset)
  car.writeTail

theorem write_eq (car : Car) (view : MessageView) :
    car.write view = car.writeInOrder usualOrder view := by
  rw [writeInOrder, ← writeBlock_eq]
  rfl

theorem writeInOrder_fills {car : Car} (fits : car.Representable) {order : List BlockField}
    (each : order.Perm BlockField.all) (view : MessageView) :
    Fills (car.writeInOrder order view) view.offset car.block car.tail :=
  (car.writeFields_puts fits.toHasAsciiCodes view.offset each).bind_appends (writeTail_appends fits)

theorem numberAt_lt (car : Car) (index : Nat) : car.numberAt index < patternCount 4 :=
  UInt32.toNat_lt _

theorem someNumbers_eq (car : Car) :
    #v[.ofNat (car.numberAt 0), .ofNat (car.numberAt 1), .ofNat (car.numberAt 2),
      .ofNat (car.numberAt 3)] = car.someNumbers := by
  ext index inside
  match index, inside with
  | 0, _ | 1, _ | 2, _ | 3, _ => simp [numberAt]

theorem block_eq (car : Car) : car.block =
    car.fieldBytes .serialNumber ++ (car.fieldBytes .modelYear ++ (car.fieldBytes .available ++
      (car.fieldBytes .code ++ (numberBytes .uint32 (car.numberAt 0) ++
        (numberBytes .uint32 (car.numberAt 1) ++ (numberBytes .uint32 (car.numberAt 2) ++
          (numberBytes .uint32 (car.numberAt 3) ++ (car.fieldBytes .vehicleCode ++
            (car.fieldBytes .extras ++ (car.fieldBytes .engine ++
              car.fieldBytes .cupHolderCount)))))))))) := by
  have numbers : car.fieldBytes .someNumbers = numberBytes .uint32 (car.numberAt 0) ++
      (numberBytes .uint32 (car.numberAt 1) ++ (numberBytes .uint32 (car.numberAt 2) ++
        (numberBytes .uint32 (car.numberAt 3) ++ []))) := rfl
  simp only [block, BlockField.all, List.flatMap_cons, List.flatMap_nil, numbers, List.append_nil,
    List.append_assoc]

theorem varBytes_reads {car : Car} (known : schemaVersion ≤ version) (short : car.HasShortValues)
    (image : String → String → List UInt8 → Car) :
    Reads version (do
      let manufacturer ← manufacturerField.read .utf8
      let model ← modelField.read .utf8
      let activationCode ← activationCodeField.bytes
      pure (image manufacturer model activationCode)) car.varBytes
      (image car.manufacturer car.model car.activationCode) := by
  have fits : usualLength < patternCount 4 := by decide
  refine (VarField.reads_utf8 (Nat.zero_le _) (Nat.lt_of_le_of_lt short.manufacturer fits)).bind ?_
  refine (VarField.reads_utf8 (Nat.zero_le _) (Nat.lt_of_le_of_lt short.model fits)).bind ?_
  exact (VarField.bytes_reads known (Nat.lt_of_le_of_lt short.activationCode fits)).map _

/-- A car is read from its bytes, whatever the bytes of its groups are. -/
theorem read_scans {car : Car} (known : schemaVersion ≤ version) (codes : car.HasAsciiCodes)
    (short : car.HasShortValues) {fuelBytes performanceBytes : List UInt8}
    (fuel : Reads version (FuelFigure.shape.readAll FuelFigure.read) fuelBytes car.fuelFigures)
    (performance : Reads version (PerformanceFigure.shape.readAll PerformanceFigure.read)
      performanceBytes car.performanceFigures) (view : MessageView) :
    Scans version (read view) view.offset car.block
      (fuelBytes ++ (performanceBytes ++ car.varBytes)) car.asRead := by
  have code : Gets version (vehicleCodeField.read view.offset) (view.offset + 28)
      (car.fieldBytes .vehicleCode) (shortened 6 car.vehicleCode) := by
    rw [← Charset.decode_beforeNul codes.vehicleCode]
    exact TextField.gets (Nat.zero_le _) rfl _
  -- each step finds its field where the bytes before it end; those of a text have to be counted
  rw [block_eq]
  refine Gets.bind_scans (NumberField.gets (Nat.zero_le _) rfl car.serialNumber.toNat_lt) ?_
  refine Gets.bind_scans (NumberField.gets (Nat.zero_le _) rfl car.modelYear.toNat_lt) ?_
  refine Gets.bind_scans (EnumField.gets (Nat.zero_le _) rfl booleanType_isDistinct _) ?_
  refine Gets.bind_scans (EnumField.gets (Nat.zero_le _) rfl modelType_isDistinct _) ?_
  refine Gets.bind_scans (ArrayField.gets (Nat.zero_le _) (by decide) rfl (car.numberAt_lt 0)) ?_
  refine Gets.bind_scans (ArrayField.gets (Nat.zero_le _) (by decide) rfl (car.numberAt_lt 1)) ?_
  refine Gets.bind_scans (ArrayField.gets (Nat.zero_le _) (by decide) rfl (car.numberAt_lt 2)) ?_
  refine Gets.bind_scans (ArrayField.gets (Nat.zero_le _) (by decide) rfl (car.numberAt_lt 3)) ?_
  refine Gets.bind_scans code ?_
  rw [car.length_fieldBytes .vehicleCode]
  refine Scans.after_view (fun small => extrasField.run_view small) ?_
  refine Gets.bind_scans (car.extras.read_gets _) ?_
  refine Scans.after_view (fun small => engineField.run_view small) ?_
  refine Gets.bind_scans (Engine.read_gets codes.manufacturerCode _) ?_
  rw [car.length_fieldBytes .engine]
  refine Gets.bind_reads (NumberField.gets known rfl car.cupHolderCount.toNat_lt) ?_
  refine fuel.bind (performance.bind ?_)
  rw [someNumbers_eq, UInt64.ofNat_toNat, UInt16.ofNat_toNat, UInt8.ofNat_toNat]
  exact varBytes_reads known short _

end Car

end Sbe.Demo
