import Sbe.Demo.Parts

/-!
**The message Service.**

A service visit has a mileage and a grade. Version 1 of the schema added the extras, the engine and
the stops. The remark has at most eight bytes.
-/

namespace Sbe.Demo

open Sbe.Codec

/-- A service visit. -/
structure Service where
  mileage : UInt16
  grade : UInt8
  extras : Extras
  engine : Engine
  odometers : List UInt16
  remark : List UInt8
deriving DecidableEq

namespace Service

/-- The mileage. -/
def mileageField : NumberField := { name := "mileage", offset := 0, primitive := .uint16 }

/-- The grade. -/
def gradeField : NumberField := { name := "grade", offset := 2, primitive := .char }

/-- The extras. -/
def extrasField : SetField := { name := "extras", offset := 3, since := 1, type := extrasType }

/-- The engine. -/
def engineField : CompositeField :=
  { name := "engine", offset := 4, since := 1, type := Engine.type }

/-- The odometer at a stop. -/
def odometerField : NumberField := { name := "odometer", offset := 0, primitive := .uint16 }

/-- The group of stops. -/
def stops : GroupShape := .mk "stops" 2 0 usualCount 1 [.number odometerField] [] []

/-- The remark. -/
def remarkField : VarField := { name := "remark", greatestLength := 8 }

/-- The message. -/
def shape : MessageShape where
  name := "Service"
  templateId := 3
  schemaId := schemaId
  version := schemaVersion
  blockLength := 10
  members :=
    [.number mileageField, .number gradeField, .bitSet extrasField, .composite engineField]
  groups := [stops]
  varData := [remarkField]

/-- Writes the odometer at a stop. -/
def writeOdometer (view : GroupView) (odometer : UInt16) : Codec Unit :=
  odometerField.write view.offset odometer.toNat

/-- Reads the odometer at a stop. -/
def readOdometer (view : GroupView) : Codec UInt16 := do
  pure (.ofNat (← odometerField.read view.offset))

/-- Writes a service visit. -/
def write (service : Service) (view : MessageView) : Codec Unit := do
  mileageField.write view.offset service.mileage.toNat
  gradeField.write view.offset service.grade.toNat
  service.extras.write (← extrasField.view view.offset)
  service.engine.write (← engineField.view view.offset)
  stops.writeAll service.odometers writeOdometer
  remarkField.put service.remark

/-- Writes a service visit behind its header; gives the number of bytes written. -/
def encode (service : Service) : Codec Nat := do
  let view ← shape.openWithHeader 0
  service.write view
  pure (headerType.encodedLength + (← view.encodedLength))

/-- The example visit with the given odometers and remark. -/
def sample (odometers : List UInt16) (remark : List UInt8) : Service :=
  { mileage := 120, grade := 66, extras := ⟨true, false, false⟩, engine := ⟨1600, 4, "VTC"⟩,
    odometers, remark }

/-- Opens a service visit behind its header as if it had been written in the given version. -/
def openAtVersion (version : Nat) : Codec MessageView :=
  shape.openAt headerType.encodedLength shape.blockLength version

end Service

end Sbe.Demo
