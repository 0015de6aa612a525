import Sbe.Demo.Parts

/-!
**The message Car.**

A car has fields of every kind, two groups, one of them with a group inside, and three fields of
variable length. Version 1 of the schema added the cup holders and the activation code.
-/

namespace Sbe.Demo

open Sbe.Codec

/-- The mileage at a speed. -/
structure FuelFigure where
  speed : UInt16
  /-- The bit pattern of a single precision number. -/
  mpg : UInt32
  usageDescription : String
deriving DecidableEq

/-- The time to reach a speed. -/
structure Acceleration where
  mph : UInt16
  /-- The bit pattern of a single precision number. -/
  seconds : UInt32
deriving DecidableEq

/-- The accelerations on one kind of fuel. -/
structure PerformanceFigure where
  octaneRating : UInt8
  accelerations : List Acceleration
deriving DecidableEq

/-- A car. -/
structure Car where
  serialNumber : UInt64
  modelYear : UInt16
  available : EnumValue booleanType
  code : EnumValue modelType
  someNumbers : Vector UInt32 4
  vehicleCode : String
  extras : Extras
  engine : Engine
  cupHolderCount : UInt8
  fuelFigures : List FuelFigure
  performanceFigures : List PerformanceFigure
  manufacturer : String
  model : String
  activationCode : List UInt8
deriving DecidableEq

/-! ### Fuel figures -/

namespace FuelFigure

/-- The speed. -/
def speedField : NumberField := { name := "speed", offset := 0, primitive := .uint16 }

/-- The mileage. -/
def mpgField : NumberField := { name := "mpg", offset := 2, primitive := .float }

/-- The description of the use. -/
def usageDescriptionField : VarField :=
  { name := "usageDescription", greatestLength := usualLength, charset := some .ascii }

/-- The group of fuel figures. -/
def shape : GroupShape :=
  .mk "fuelFigures" 6 0 usualCount 0 [.number speedField, .number mpgField] []
    [usageDescriptionField]

/-- Writes a figure. -/
def write (view : GroupView) (figure : FuelFigure) : Codec Unit := do
  speedField.write view.offset figure.speed.toNat
  mpgField.write view.offset figure.mpg.toNat
  usageDescriptionField.write .ascii figure.usageDescription

/-- Reads a figure. -/
def read (view : GroupView) : Codec FuelFigure := do
  let speed ← speedField.read view.offset
  let mpg ← mpgField.read view.offset
  let usageDescription ← usageDescriptionField.read .ascii
  pure ⟨.ofNat speed, .ofNat mpg, usageDescription⟩

end FuelFigure

/-! ### Performance figures -/

namespace Acceleration

/-- The speed reached. -/
def mphField : NumberField := { name := "mph", offset := 0, primitive := .uint16 }

/-- The time needed. -/
def secondsField : NumberField := { name := "seconds", offset := 2, primitive := .float }

/-- The group of accelerations. -/
def shape : GroupShape :=
  .mk "acceleration" 6 0 usualCount 0 [.number mphField, .number secondsField] [] []

/-- Writes an acceleration. -/
def write (view : GroupView) (acceleration : Acceleration) : Codec Unit := do
  mphField.write view.offset acceleration.mph.toNat
  secondsField.write view.offset acceleration.seconds.toNat

/-- Reads an acceleration. -/
def read (view : GroupView) : Codec Acceleration := do
  let mph ← mphField.read view.offset
  let seconds ← secondsField.read view.offset
  pure ⟨.ofNat mph, .ofNat seconds⟩

end Acceleration

namespace PerformanceFigure

/-- The octane rating of the fuel. -/
def octaneRatingField : NumberField := { name := "octaneRating", offset := 0, primitive := .uint8 }

/-- The group of performance figures. -/
def shape : GroupShape :=
  .mk "performanceFigures" 1 0 usualCount 0 [.number octaneRatingField] [Acceleration.shape] []

/-- Writes a figure. -/
def write (view : GroupView) (figure : PerformanceFigure) : Codec Unit := do
  octaneRatingField.write view.offset figure.octaneRating.toNat
  Acceleration.shape.writeAll figure.accelerations Acceleration.write

/-- Reads a figure. -/
def read (view : GroupView) : Codec PerformanceFigure := do
  let octaneRating ← octaneRatingField.read view.offset
  let accelerations ← Acceleration.shape.readAll Acceleration.read
  pure ⟨.ofNat octaneRating, accelerations⟩

end PerformanceFigure

/-! ### Cars -/

namespace Car

/-- The serial number. -/
def serialNumberField : NumberField :=
  { name := "serialNumber", offset := 0, primitive := .uint64,
    attributes := { semanticType := "SerialNumber" } }

/-- The year of the model. -/
def modelYearField : NumberField := { name := "modelYear", offset := 8, primitive := .uint16 }

/-- Whether the car is to be had. -/
def availableField : EnumField := { name := "available", offset := 10, type := booleanType }

/-- The code of the model. -/
def codeField : EnumField := { name := "code", offset := 11, type := modelType }

/-- Four numbers. -/
def someNumbersField : ArrayField :=
  { name := "someNumbers", offset := 12, primitive := .uint32, length := 4 }

/-- The code of the vehicle. -/
def vehicleCodeField : TextField := { name := "vehicleCode", offset := 28, length := 6 }

/-- The extras. -/
def extrasField : SetField := { name := "extras", offset := 34, type := extrasType }

/-- The model that is sold at a discount, which is the same for all cars. -/
def discountedModelPlace : Place :=
  { name := "discountedModel", offset := 0, attributes := { presence := .constant } }

/-- The engine. -/
def engineField : CompositeField := { name := "engine", offset := 35, type := Engine.type }

/-- The number of cup holders. -/
def cupHolderCountField : NumberField :=
  { name := "cupHolderCount", offset := 41, since := 1, primitive := .uint8,
    attributes := { presence := .optional } }

/-- The manufacturer. -/
def manufacturerField : VarField :=
  { name := "manufacturer", greatestLength := usualLength, charset := some .utf8 }

/-- The model. -/
def modelField : VarField :=
  { name := "model", greatestLength := usualLength, charset := some .utf8 }

/-- The activation code. -/
def activationCodeField : VarField :=
  { name := "activationCode", greatestLength := usualLength, since := 1 }

/-- The message. -/
def shape : MessageShape where
  name := "Car"
  templateId := 1
  schemaId := schemaId
  version := schemaVersion
  blockLength := 42
  members :=
    [.number serialNumberField, .number modelYearField, .enumeration availableField,
      .enumeration codeField, .array someNumbersField, .text vehicleCodeField, .bitSet extrasField,
      .constantEnum discountedModelPlace modelType modelC, .composite engineField,
      .number cupHolderCountField]
  groups := [FuelFigure.shape, PerformanceFigure.shape]
  varData := [manufacturerField, modelField, activationCodeField]

/-- Writes the fixed block of a car. -/
def writeBlock (car : Car) (base : Nat) : Codec Unit := do
  serialNumberField.write base car.serialNumber.toNat
  modelYearField.write base car.modelYear.toNat
  availableField.write base car.available
  codeField.write base car.code
  cupHolderCountField.write base car.cupHolderCount.toNat
  (List.range 4).forM fun index =>
    someNumbersField.writeAt base index (car.someNumbers.toList[index]?.getD 0).toNat
  vehicleCodeField.write base car.vehicleCode
  car.extras.write (← extrasField.view base)
  car.engine.write (← engineField.view base)

/-- Writes a car. -/
def write (car : Car) (view : MessageView) : Codec Unit := do
  car.writeBlock view.offset
  FuelFigure.shape.writeAll car.fuelFigures FuelFigure.write
  PerformanceFigure.shape.writeAll car.performanceFigures PerformanceFigure.write
  manufacturerField.write .utf8 car.manufacturer
  modelField.write .utf8 car.model
  activationCodeField.put car.activationCode

/-- Reads a car in the order of its schema. -/
def read (view : MessageView) : Codec Car := do
  let base := view.offset
  let serialNumber ← serialNumberField.read base
  let modelYear ← modelYearField.read base
  let available ← availableField.read base
  let code ← codeField.read base
  let first ← someNumbersField.readAt base 0
  let second ← someNumbersField.readAt base 1
  let third ← someNumbersField.readAt base 2
  let fourth ← someNumbersField.readAt base 3
  let vehicleCode ← vehicleCodeField.read base
  let extras ← Extras.read (← extrasField.view base)
  let engine ← Engine.read (← engineField.view base)
  let cupHolderCount ← cupHolderCountField.read base
  let fuelFigures ← FuelFigure.shape.readAll FuelFigure.read
  let performanceFigures ← PerformanceFigure.shape.readAll PerformanceFigure.read
  let manufacturer ← manufacturerField.read .utf8
  let model ← modelField.read .utf8
  let activationCode ← activationCodeField.bytes
  pure {
    serialNumber := .ofNat serialNumber
    modelYear := .ofNat modelYear
    available, code
    someNumbers := #v[.ofNat first, .ofNat second, .ofNat third, .ofNat fourth]
    vehicleCode, extras, engine
    cupHolderCount := .ofNat cupHolderCount
    fuelFigures, performanceFigures, manufacturer, model, activationCode }

/-- Writes a car behind its header; gives the number of bytes written. -/
def encode (car : Car) : Codec Nat := do
  let view ← shape.openWithHeader 0
  car.write view
  pure (headerType.encodedLength + (← view.encodedLength))

/-- The samples of acceleration of the example. -/
def sampleAccelerations : List Acceleration :=
  [⟨30, 0x40800000⟩, ⟨60, 0x40f00000⟩, ⟨100, 0x41433333⟩]

/-- An example. -/
def sample : Car where
  serialNumber := 1234
  modelYear := 2013
  available := isTrue
  code := modelA
  someNumbers := #v[1, 2, 3, 4]
  vehicleCode := "abcdef"
  extras := ⟨false, true, true⟩
  engine := ⟨2000, 4, "123"⟩
  cupHolderCount := 2
  fuelFigures :=
    [⟨30, 0x420f999a, "Urban Cycle"⟩, ⟨55, 0x42440000, "Combined Cycle"⟩,
      ⟨75, 0x42200000, "Highway Cycle"⟩]
  performanceFigures := [⟨95, sampleAccelerations⟩, ⟨99, sampleAccelerations⟩]
  manufacturer := "Honda"
  model := "Civic VTi"
  activationCode := [0x61, 0x62, 0x63, 0x64, 0x65, 0x66]

end Car

end Sbe.Demo
