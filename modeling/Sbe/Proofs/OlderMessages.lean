import Sbe.Proofs.CarBytes
import Sbe.Proofs.Extension
import Sbe.Proofs.Versions

/-!
**Messages of the first version.**

Version 0 of the schema had no cup holders and no activation code in a car, and no extras, engine
and stops in a service visit. Its messages have shorter blocks and nothing where the newer elements
would stand. They are read in the order of the present schema, to their end and with all their
values.

* `FirstCar`, `FirstService`: the values of messages of version 0, and their bytes;
* `Car.report`, `Service.report`: reading in the order of the present schema, in all forms;
* `FirstCar.report_scans`, `FirstService.report_scans`: what is read from the bytes;
* `first_version_reads_completely`: whole messages, wherever they stand.
-/

namespace Sbe

namespace Codec

variable {α β : Type} {version : Nat}

/-! ### Fields in all forms -/

/-- The same bytes are looked at twice. -/
theorem Gets.again {first : Codec α} {next : α → Codec β} {index : Nat} {bytes : List UInt8}
    {value : α} {result : β} (one : Gets version first index bytes value)
    (two : Gets version (next value) index bytes result) :
    Gets version (first >>= next) index bytes result := by
  intro wire same holds small
  rw [run_bind_of_ok (one wire same holds small), two wire same holds small]

/-- A text of fixed length, as text and as its bytes. -/
def TextField.report (field : TextField) (base : Nat) : Codec (String × List UInt8) := do
  let text ← field.read base
  let (_, bytes) ← field.copy base (emptyDestination field.length)
  pure (text, bytes)

theorem TextField.report_gets {field : TextField} {base index : Nat}
    (known : field.since ≤ version) (place : base + field.offset = index) {bytes : List UInt8}
    (size : bytes.length = field.length) :
    Gets version (field.report base) index bytes
      (field.charset.decode (Text.beforeNul bytes), bytes) := by
  subst place
  have found : Gets version (slice (base + field.offset) field.length) (base + field.offset) bytes
      bytes := slice_gets size
  have read : Gets version (field.read base) (base + field.offset) bytes
      (field.charset.decode (Text.beforeNul bytes)) := (found.map _).of_known known
  have copied : Gets version (field.copy base (emptyDestination field.length)) (base + field.offset)
      bytes (field.length, bytes) := by
    have enough : ¬ (emptyDestination field.length).length < field.length := by
      simp [emptyDestination]
    have full : (emptyDestination field.length).drop field.length = [] := by simp [emptyDestination]
    rw [copy, if_neg enough]
    simp only [full, List.append_nil]
    exact (found.map fun bytes => (field.length, bytes)).of_known known
  exact read.again (copied.map fun copied => (_, copied.2))

/-- A value of variable length, by its length and by what an access gives that takes it. -/
def VarField.report (field : VarField) (access : FieldAccess) : Codec (Nat × Datum) := do
  let length ← field.length
  pure (length, ← field.access access)

namespace VarField

variable {field : VarField} {access : FieldAccess}

theorem report_reads {source : List UInt8} (takes : field.takes access = true)
    (known : field.since ≤ version) (short : source.length < patternCount 4) :
    Reads version (field.report access) (sizedBytes source)
      (source.length, field.taken source access) := by
  intro wire same holds small
  have length := run_length (same ▸ known) short holds small
  rw [report, run_bind_of_ok length]
  exact (access_reads takes known short).map (source.length, ·) wire same holds small

/-- In a message that is too old for the field there is nothing to take. -/
theorem report_reads_of_older (takes : field.takes access = true) (older : version < field.since) :
    Reads version (field.report access) [] (0, field.taken [] access) := by
  intro wire same _ _
  subst same
  have accessed : (field.access access).run wire = (.ok (field.taken [] access), wire) := by
    cases access with
    | readText =>
      rw [VarField.takes, Option.isSome_iff_exists] at takes
      obtain ⟨charset, found⟩ := takes
      have read : (field.read charset).run wire = (.ok (charset.decode []), wire) :=
        run_bind_of_ok (run_bytes_of_older older)
      simp only [VarField.access, VarField.taken, found]
      exact run_bind_of_ok read
    | readBytes => exact run_bind_of_ok (run_bytes_of_older older)
    | copy capacity =>
      rw [VarField.taken,
        show copied [] (emptyDestination capacity) = (0, emptyDestination capacity) by
          simp [copied]]
      exact run_bind_of_ok (run_copy_of_older older _)
    | skip => exact run_bind_of_ok (run_skip_of_older older)
    | _ => cases takes
  rw [report, run_bind_of_ok (run_length_of_older older), run_bind_of_ok accessed]
  rfl

end VarField

/-- A message is opened and scanned to the end of its bytes. -/
theorem Scans.run_openAt {shape : MessageShape} {work : MessageView → Codec α}
    {offset blockLength : Nat} {block tail : List UInt8} {value : α} {buffer : Buffer}
    (scans : Scans version (work ⟨shape, offset, blockLength⟩) offset block tail value)
    (size : block.length = blockLength) (holds : buffer.Holds offset (block ++ tail))
    (small : offset + (block ++ tail).length < wordBound) :
    (shape.openAt offset blockLength version >>= work).run (MessageShape.fresh buffer) =
      (.ok value, ⟨buffer, ⟨offset + (block ++ tail).length, version⟩⟩) := by
  rw [List.length_append] at small ⊢
  have behind := holds.right
  rw [size] at small behind ⊢
  have room : offset + blockLength < wordBound := by omega
  have opened := shape.run_openAt room version (MessageShape.fresh buffer)
  rw [run_bind_of_ok opened,
    scans _ rfl holds.left (by omega) behind (by show _ + _ + _ < _; omega)]
  show _ = (_, (⟨buffer, ⟨_, _⟩⟩ : Wire))
  rw [← Nat.add_assoc]
  rfl

end Codec

namespace Demo

open Sbe.Codec
open Sbe.Codec.MessageShape (fresh)

variable {version : Nat}

/-! ### Reading in the order of the present schema -/

/-- What is read of an engine. -/
structure EngineReport where
  capacity : Nat
  numCylinders : Nat
  manufacturerCode : String × List UInt8

/-- What is read of a fuel figure. -/
structure FuelReport where
  speed : Nat
  mpg : Nat
  usageDescription : Nat × Datum

/-- What is read of a car: numbers by their bit patterns, texts of fixed length as text and as
bytes, and values of variable length by their length and by what the access gives that takes
them. -/
structure CarReport where
  serialNumber : Nat
  modelYear : Nat
  available : EnumValue booleanType
  code : EnumValue modelType
  someNumbers : List Nat
  vehicleCode : String × List UInt8
  extras : Nat × Extras
  engine : EngineReport
  cupHolderCount : Nat
  fuelFigures : List FuelReport
  performanceFigures : List PerformanceFigure
  manufacturer : Nat × Datum
  model : Nat × Datum
  activationCode : Nat × Datum

/-- Ways to take the values of variable length of a car. -/
structure CarTakings where
  usageDescription : Taking FuelFigure.usageDescriptionField
  manufacturer : Taking Car.manufacturerField
  model : Taking Car.modelField
  activationCode : Taking Car.activationCodeField

/-- Reads extras as a bit pattern and as flags. -/
def Extras.report (view : SetView) : Codec (Nat × Extras) := do
  let raw ← view.raw
  let flags ← read view
  pure (raw, flags)

/-- Reads an engine. -/
def Engine.report (view : CompositeView) : Codec EngineReport := do
  let capacity ← capacityField.read view.offset
  let numCylinders ← numCylindersField.read view.offset
  let manufacturerCode ← manufacturerCodeField.report view.offset
  pure ⟨capacity, numCylinders, manufacturerCode⟩

/-- Reads a fuel figure. -/
def FuelFigure.report (taking : Taking usageDescriptionField) (view : GroupView) :
    Codec FuelReport := do
  let speed ← speedField.read view.offset
  let mpg ← mpgField.read view.offset
  let usageDescription ← usageDescriptionField.report taking.access
  pure ⟨speed, mpg, usageDescription⟩

/-- Reads a car in the order of its schema. -/
def Car.report (takings : CarTakings) (view : MessageView) : Codec CarReport := do
  let base := view.offset
  let serialNumber ← serialNumberField.read base
  let modelYear ← modelYearField.read base
  let available ← availableField.read base
  let code ← codeField.read base
  let first ← someNumbersField.readAt base 0
  let second ← someNumbersField.readAt base 1
  let third ← someNumbersField.readAt base 2
  let fourth ← someNumbersField.readAt base 3
  let vehicleCode ← vehicleCodeField.report base
  let extras ← Extras.report (← extrasField.view base)
  let engine ← Engine.report (← engineField.view base)
  let cupHolderCount ← cupHolderCountField.read base
  let fuelFigures ← FuelFigure.shape.readAll (FuelFigure.report takings.usageDescription)
  let performanceFigures ← PerformanceFigure.shape.readAll PerformanceFigure.read
  let manufacturer ← manufacturerField.report takings.manufacturer.access
  let model ← modelField.report takings.model.access
  let activationCode ← activationCodeField.report takings.activationCode.access
  pure {
    serialNumber, modelYear, available, code, someNumbers := [first, second, third, fourth],
    vehicleCode, extras, engine, cupHolderCount, fuelFigures, performanceFigures, manufacturer,
      model,
    activationCode }

/-- What is read of a service visit. -/
structure ServiceReport where
  mileage : Nat
  grade : Nat
  extras : Option SetView
  engine : Option CompositeView
  stops : List UInt16
  remark : Nat × Datum

/-- Reads a service visit in the order of its schema. -/
def Service.report (remark : Taking remarkField) (view : MessageView) : Codec ServiceReport := do
  let base := view.offset
  let mileage ← mileageField.read base
  let grade ← gradeField.read base
  let extras ← extrasField.view? base
  let engine ← engineField.view? base
  let stops ← stops.readAll readOdometer
  let remark ← remarkField.report remark.access
  pure { mileage, grade, extras, engine, stops, remark }

/-! ### Service visits of the first version -/

/-- A service visit of version 0. -/
structure FirstService where
  mileage : UInt16
  grade : UInt8
  remark : ShortValue

namespace FirstService

/-- The bytes of the block: a mileage and a grade. -/
def block (service : FirstService) : List UInt8 :=
  numberBytes .uint16 service.mileage.toNat ++ numberBytes .char service.grade.toNat

/-- The bytes of the message. -/
def bytes (service : FirstService) : List UInt8 := service.block ++ sizedBytes service.remark.bytes

/-- What the present reader makes of a service visit of version 0. -/
def report (remark : Taking Service.remarkField) (service : FirstService) : ServiceReport where
  mileage := service.mileage.toNat
  grade := service.grade.toNat
  extras := none
  engine := none
  stops := []
  remark :=
    (service.remark.bytes.length, Service.remarkField.taken service.remark.bytes remark.access)

theorem length_block (service : FirstService) : service.block.length = 3 := by
  rw [block, List.length_append, length_numberBytes, length_numberBytes]
  rfl

theorem report_scans (remark : Taking Service.remarkField) (service : FirstService)
    (view : MessageView) :
    Scans 0 (Service.report remark view) view.offset service.block (sizedBytes service.remark.bytes)
      (service.report remark) := by
  refine Gets.bind_scans (NumberField.gets (Nat.zero_le _) rfl service.mileage.toNat_lt) ?_
  refine Gets.bind_reads (NumberField.gets (Nat.zero_le _) rfl service.grade.toNat_lt) ?_
  intro wire same holds small
  have older : wire.cursor.version < schemaVersion := by
    rw [same]
    decide
  have lacks := Service.lacks_of_older older view.offset
  have stops : (Service.stops.readAll Service.readOdometer).run wire = (.ok [], wire) := by
    rw [GroupShape.readAll, run_bind_of_ok lacks.openRead, lacks.forEach]
  rw [run_bind_of_ok lacks.extras, run_bind_of_ok lacks.engine, run_bind_of_ok stops]
  exact (VarField.report_reads remark.takes (Nat.zero_le _) service.remark.short).map _ wire same
    holds small

end FirstService

/-! ### Cars of the first version -/

/-- The values of an engine. -/
structure EngineValues where
  capacity : UInt16
  numCylinders : UInt8
  manufacturerCode : Vector UInt8 3

namespace EngineValues

/-- The bytes of an engine. -/
def bytes (engine : EngineValues) : List UInt8 :=
  numberBytes .uint16 engine.capacity.toNat ++
    (numberBytes .uint8 engine.numCylinders.toNat ++ engine.manufacturerCode.toList)

/-- What is read of an engine. -/
def report (engine : EngineValues) : EngineReport where
  capacity := engine.capacity.toNat
  numCylinders := engine.numCylinders.toNat
  manufacturerCode := (Text.Charset.ascii.decode (Text.beforeNul engine.manufacturerCode.toList),
    engine.manufacturerCode.toList)

theorem report_gets (engine : EngineValues) (offset : Nat) :
    Gets version (Engine.report ⟨Engine.type, offset⟩) offset engine.bytes engine.report := by
  refine Gets.bind (NumberField.gets (Nat.zero_le _) rfl engine.capacity.toNat_lt) ?_
  refine Gets.bind (NumberField.gets (Nat.zero_le _) rfl engine.numCylinders.toNat_lt) ?_
  exact (TextField.report_gets (Nat.zero_le _) rfl engine.manufacturerCode.length_toList).map _

end EngineValues

/-- The extras of a bit pattern. -/
def Extras.ofRaw (raw : Nat) : Extras :=
  ⟨SetType.test raw 0, SetType.test raw 1, SetType.test raw 2⟩

theorem Extras.report_gets (raw : UInt8) (offset : Nat) :
    Gets version (Extras.report ⟨extrasType, offset⟩) offset (numberBytes .uint8 raw.toNat)
      (raw.toNat, .ofRaw raw.toNat) := by
  have found : Gets version (SetView.raw ⟨extrasType, offset⟩) offset (numberBytes .uint8 raw.toNat)
      raw.toNat := getNumber_gets raw.toNat_lt offset
  exact found.again ((found.map Extras.ofRaw).map _)

/-- The values of a fuel figure. -/
structure FuelValues where
  speed : UInt16
  mpg : UInt32
  usageDescription : ShortValue

namespace FuelValues

/-- The bytes of the block of a figure. -/
def block (figure : FuelValues) : List UInt8 :=
  numberBytes .uint16 figure.speed.toNat ++ numberBytes .float figure.mpg.toNat

/-- The bytes that follow the block of a figure. -/
def tail (figure : FuelValues) : List UInt8 := sizedBytes figure.usageDescription.bytes

/-- What is read of a figure. -/
def report (taking : Taking FuelFigure.usageDescriptionField) (figure : FuelValues) :
    FuelReport where
  speed := figure.speed.toNat
  mpg := figure.mpg.toNat
  usageDescription := (figure.usageDescription.bytes.length,
    FuelFigure.usageDescriptionField.taken figure.usageDescription.bytes taking.access)

theorem length_block (figure : FuelValues) :
    figure.block.length = FuelFigure.shape.blockLength := by
  rw [block, List.length_append, length_numberBytes, length_numberBytes]
  rfl

theorem report_scans (taking : Taking FuelFigure.usageDescriptionField) (figure : FuelValues)
    (view : GroupView) :
    Scans version (FuelFigure.report taking view) view.offset figure.block figure.tail
      (figure.report taking) := by
  refine Gets.bind_scans (NumberField.gets (Nat.zero_le _) rfl figure.speed.toNat_lt) ?_
  refine Gets.bind_reads (NumberField.gets (Nat.zero_le _) rfl figure.mpg.toNat_lt) ?_
  exact (VarField.report_reads taking.takes (Nat.zero_le _) figure.usageDescription.short).map _

end FuelValues

/-- The values of a performance figure. -/
structure PerformanceValues where
  octaneRating : UInt8
  accelerations : Counted Acceleration

namespace PerformanceValues

/-- The bytes of the block of a figure. -/
def block (figure : PerformanceValues) : List UInt8 := numberBytes .uint8 figure.octaneRating.toNat

/-- The bytes that follow the block of a figure. -/
def tail (figure : PerformanceValues) : List UInt8 :=
  Acceleration.groupBytes figure.accelerations.items

/-- What is read of a figure. -/
def report (figure : PerformanceValues) : PerformanceFigure :=
  ⟨figure.octaneRating, figure.accelerations.items⟩

theorem report_scans (figure : PerformanceValues) (view : GroupView) :
    Scans version (PerformanceFigure.read view) view.offset figure.block figure.tail
      figure.report := by
  have accelerations : Reads version (Acceleration.shape.readAll Acceleration.read) figure.tail
      figure.accelerations.items :=
    GroupShape.readAll_reads_items (Nat.zero_le _)
      (fun acceleration _ view => (acceleration.read_gets view).scans)
      (fun acceleration _ => acceleration.length_block) (by decide) figure.accelerations.few
  refine Gets.bind_reads (NumberField.gets (Nat.zero_le _) rfl figure.octaneRating.toNat_lt) ?_
  rw [UInt8.ofNat_toNat]
  exact accelerations.map _

end PerformanceValues

/-- A car of version 0. -/
structure FirstCar where
  serialNumber : UInt64
  modelYear : UInt16
  available : EnumValue booleanType
  code : EnumValue modelType
  someNumbers : Vector UInt32 4
  vehicleCode : Vector UInt8 6
  extras : UInt8
  engine : EngineValues
  fuelFigures : Counted FuelValues
  performanceFigures : Counted PerformanceValues
  manufacturer : ShortValue
  model : ShortValue

namespace FirstCar

/-- The bytes of the block, which ends with the engine. -/
def block (car : FirstCar) : List UInt8 :=
  numberBytes .uint64 car.serialNumber.toNat ++ (numberBytes .uint16 car.modelYear.toNat ++
    (numberBytes .uint8 car.available.raw ++ (numberBytes .char car.code.raw ++
      (numberBytes .uint32 car.someNumbers[0].toNat ++
        (numberBytes .uint32 car.someNumbers[1].toNat ++
          (numberBytes .uint32 car.someNumbers[2].toNat ++
            (numberBytes .uint32 car.someNumbers[3].toNat ++ (car.vehicleCode.toList ++
              (numberBytes .uint8 car.extras.toNat ++ car.engine.bytes)))))))))

/-- The bytes of the fuel figures. -/
def fuelBytes (car : FirstCar) : List UInt8 :=
  dimensionBytes FuelFigure.shape.blockLength car.fuelFigures.items.length ++
    repetitions FuelValues.block FuelValues.tail car.fuelFigures.items

/-- The bytes of the performance figures. -/
def performanceBytes (car : FirstCar) : List UInt8 :=
  dimensionBytes PerformanceFigure.shape.blockLength car.performanceFigures.items.length ++
    repetitions PerformanceValues.block PerformanceValues.tail car.performanceFigures.items

/-- The bytes that follow the block, which end with the model. -/
def tail (car : FirstCar) : List UInt8 :=
  car.fuelBytes ++ (car.performanceBytes ++
    (sizedBytes car.manufacturer.bytes ++ sizedBytes car.model.bytes))

/-- The bytes of the message. -/
def bytes (car : FirstCar) : List UInt8 := car.block ++ car.tail

/-- What the present reader makes of a car of version 0. -/
def report (takings : CarTakings) (car : FirstCar) : CarReport where
  serialNumber := car.serialNumber.toNat
  modelYear := car.modelYear.toNat
  available := car.available
  code := car.code
  someNumbers := [car.someNumbers[0].toNat, car.someNumbers[1].toNat, car.someNumbers[2].toNat,
    car.someNumbers[3].toNat]
  vehicleCode :=
    (Text.Charset.ascii.decode (Text.beforeNul car.vehicleCode.toList), car.vehicleCode.toList)
  extras := (car.extras.toNat, .ofRaw car.extras.toNat)
  engine := car.engine.report
  cupHolderCount := 255
  fuelFigures := car.fuelFigures.items.map (FuelValues.report takings.usageDescription)
  performanceFigures := car.performanceFigures.items.map PerformanceValues.report
  manufacturer := (car.manufacturer.bytes.length,
    Car.manufacturerField.taken car.manufacturer.bytes takings.manufacturer.access)
  model := (car.model.bytes.length, Car.modelField.taken car.model.bytes takings.model.access)
  activationCode := (0, Car.activationCodeField.taken [] takings.activationCode.access)

theorem length_block (car : FirstCar) : car.block.length = 41 := by
  simp [block, EngineValues.bytes, Primitive.size]

theorem report_scans (takings : CarTakings) (car : FirstCar) (view : MessageView) :
    Scans 0 (Car.report takings view) view.offset car.block car.tail (car.report takings) := by
  have fuel : Reads 0 (FuelFigure.shape.readAll (FuelFigure.report takings.usageDescription))
      car.fuelBytes (car.fuelFigures.items.map (FuelValues.report takings.usageDescription)) :=
    GroupShape.readAll_reads (Nat.zero_le _)
      (fun figure _ => figure.report_scans takings.usageDescription)
      (fun figure _ => figure.length_block) (by decide) car.fuelFigures.few
  have performance : Reads 0 (PerformanceFigure.shape.readAll PerformanceFigure.read)
      car.performanceBytes (car.performanceFigures.items.map PerformanceValues.report) :=
    GroupShape.readAll_reads (Nat.zero_le _) (fun figure _ => figure.report_scans)
      (fun figure _ => length_numberBytes _ _) (by decide) car.performanceFigures.few
  have cupHolderCount (index : Nat) :
      Gets 0 (Car.cupHolderCountField.read view.offset) index [] 255 :=
    fun wire same _ _ => NumberField.run_read_of_older (by rw [same]; decide) view.offset
  have manufacturer := VarField.report_reads takings.manufacturer.takes (Nat.zero_le 0)
    car.manufacturer.short
  have model := VarField.report_reads takings.model.takes (Nat.zero_le 0) car.model.short
  have activationCode : Reads 0 _ _ _ :=
    VarField.report_reads_of_older takings.activationCode.takes (Nat.lt_succ_self 0)
  -- The cup holders would stand behind the engine, the activation code behind the model.
  rw [← List.append_nil car.block]
  unfold block
  simp only [List.append_assoc]
  refine Gets.bind_scans (NumberField.gets (Nat.zero_le _) rfl car.serialNumber.toNat_lt) ?_
  refine Gets.bind_scans (NumberField.gets (Nat.zero_le _) rfl car.modelYear.toNat_lt) ?_
  refine Gets.bind_scans (EnumField.gets (Nat.zero_le _) rfl booleanType_isDistinct _) ?_
  refine Gets.bind_scans (EnumField.gets (Nat.zero_le _) rfl modelType_isDistinct _) ?_
  refine Gets.bind_scans (ArrayField.gets (Nat.zero_le _) (by decide) rfl (UInt32.toNat_lt _)) ?_
  refine Gets.bind_scans (ArrayField.gets (Nat.zero_le _) (by decide) rfl (UInt32.toNat_lt _)) ?_
  refine Gets.bind_scans (ArrayField.gets (Nat.zero_le _) (by decide) rfl (UInt32.toNat_lt _)) ?_
  refine Gets.bind_scans (ArrayField.gets (Nat.zero_le _) (by decide) rfl (UInt32.toNat_lt _)) ?_
  refine Gets.bind_scans (TextField.report_gets (Nat.zero_le _) rfl car.vehicleCode.length_toList)
    ?_
  rw [car.vehicleCode.length_toList]
  refine Scans.after_view (fun small => Car.extrasField.run_view small) ?_
  refine Gets.bind_scans (Extras.report_gets car.extras _) ?_
  refine Scans.after_view (fun small => Car.engineField.run_view small) ?_
  refine Gets.bind_scans (car.engine.report_gets _) ?_
  refine Gets.bind_reads (cupHolderCount _) (fuel.bind (performance.bind (manufacturer.bind ?_)))
  rw [← List.append_nil (sizedBytes car.model.bytes)]
  exact model.bind (activationCode.map _)

end FirstCar

/-- Every message of version 0 is read in the order of the present schema, wherever it stands and
whatever follows it: all its values are found, what is newer is null, not there or empty, and the
limit ends behind the message. -/
theorem first_version_reads_completely (offset : Nat) (buffer : Buffer) :
    (∀ (service : FirstService) (remark : Taking Service.remarkField),
      buffer.Holds offset service.bytes → offset + service.bytes.length < wordBound →
      (Service.shape.openAt offset 3 0 >>= Service.report remark).run (fresh buffer) =
        (.ok (service.report remark), ⟨buffer, ⟨offset + service.bytes.length, 0⟩⟩)) ∧
    ∀ (car : FirstCar) (takings : CarTakings),
      buffer.Holds offset car.bytes → offset + car.bytes.length < wordBound →
      (Car.shape.openAt offset 41 0 >>= Car.report takings).run (fresh buffer) =
        (.ok (car.report takings), ⟨buffer, ⟨offset + car.bytes.length, 0⟩⟩) := by
  constructor
  · intro service remark holds small
    exact (service.report_scans remark _).run_openAt service.length_block holds small
  · intro car takings holds small
    exact (car.report_scans takings _).run_openAt car.length_block holds small

/-- A visit of version 0 with a remark of one byte. -/
def firstVisit : FirstService := ⟨120, 66, ⟨[7], by decide⟩⟩

/-- A car of version 0 with one figure of each kind and a code that is shorter than its field. -/
def firstCar : FirstCar where
  serialNumber := 1234
  modelYear := 2013
  available := isTrue
  code := modelA
  someNumbers := #v[4, 3, 2, 1]
  vehicleCode := #v[97, 98, 99, 0, 0, 0]
  extras := 6
  engine := ⟨2000, 4, #v[49, 50, 51]⟩
  fuelFigures := ⟨[⟨30, 0x420f999a, ⟨[85, 82], by decide⟩⟩], by decide⟩
  performanceFigures := ⟨[⟨95, ⟨Car.sampleAccelerations, by decide⟩⟩], by decide⟩
  manufacturer := ⟨[72, 111], by decide⟩
  model := ⟨[67], by decide⟩

/-- The values of a car taken in four different ways. -/
def mixedTakings : CarTakings where
  usageDescription := ⟨.readBytes, by decide⟩
  manufacturer := ⟨.copy 1, by decide⟩
  model := ⟨.readText, by decide⟩
  activationCode := ⟨.skip, by decide⟩

theorem firstVisit_and_firstCar_read_completely :
    ((Buffer.ofList ([9, 9] ++ firstVisit.bytes)).Holds 2 firstVisit.bytes ∧
      2 + firstVisit.bytes.length < wordBound ∧
      (Service.shape.openAt 2 3 0 >>= Service.report ⟨.readBytes, by decide⟩).run
          (fresh (.ofList ([9, 9] ++ firstVisit.bytes))) =
        (.ok ⟨120, 66, none, none, [], (1, .bytes [7])⟩,
          ⟨.ofList ([9, 9] ++ firstVisit.bytes), ⟨10, 0⟩⟩)) ∧
    (Buffer.ofList ([9, 9] ++ firstCar.bytes)).Holds 2 firstCar.bytes ∧
      2 + firstCar.bytes.length < wordBound ∧
      (Car.shape.openAt 2 41 0 >>= Car.report mixedTakings).run
          (fresh (.ofList ([9, 9] ++ firstCar.bytes))) =
        (.ok (firstCar.report mixedTakings), ⟨.ofList ([9, 9] ++ firstCar.bytes), ⟨97, 0⟩⟩) := by
  have visitHolds : (Buffer.ofList ([9, 9] ++ firstVisit.bytes)).Holds 2 firstVisit.bytes :=
    ⟨[9, 9], [], by simp, rfl⟩
  have carHolds : (Buffer.ofList ([9, 9] ++ firstCar.bytes)).Holds 2 firstCar.bytes :=
    ⟨[9, 9], [], by simp, rfl⟩
  have visitSmall : 2 + firstVisit.bytes.length < wordBound := by decide
  have carSmall : 2 + firstCar.bytes.length < wordBound := by decide
  refine ⟨⟨visitHolds, visitSmall, ?_⟩, carHolds, carSmall, ?_⟩
  · exact (first_version_reads_completely 2 _).1 firstVisit ⟨.readBytes, by decide⟩ visitHolds
      visitSmall
  · exact (first_version_reads_completely 2 _).2 firstCar mixedTakings carHolds carSmall

end Demo

end Sbe
