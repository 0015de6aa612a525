import Sbe.Codec.Message

/-!
**Types of the demonstration schema.**

Two enums, a set and a composite that the messages share, and the sizes of their usual headers.
-/

namespace Sbe.Demo

open Sbe.Codec

/-- The id of the schema. -/
def schemaId : Nat := 1

/-- The version of the schema. -/
def schemaVersion : Nat := 1

/-- The greatest number of repetitions of a group that sets no bound of its own. -/
def usualCount : Nat := 65534

/-- The greatest length of a value of variable length that sets no bound of its own. -/
def usualLength : Nat := 1073741824

/-- A truth value. -/
def booleanType : EnumType := ⟨"BooleanType", .uint8, [("F", 0), ("T", 1)], 255⟩

/-- A model of car. -/
def modelType : EnumType := ⟨"Model", .char, [("A", 65), ("B", 66), ("C", 67)], 0⟩

/-- Truth. -/
def isTrue : EnumValue booleanType := .variant ⟨1, by decide⟩

/-- The first model. -/
def modelA : EnumValue modelType := .variant ⟨0, by decide⟩

/-- The last model. -/
def modelC : EnumValue modelType := .variant ⟨2, by decide⟩

/-- What a car can be fitted with. -/
def extrasType : SetType :=
  ⟨"OptionalExtras", .uint8, [("sunRoof", 0), ("sportsPack", 1), ("cruiseControl", 2)]⟩

/-- The extras of a car. -/
structure Extras where
  sunRoof : Bool
  sportsPack : Bool
  cruiseControl : Bool
deriving DecidableEq

namespace Extras

/-- Writes the extras. -/
def write (extras : Extras) (view : SetView) : Codec Unit := do
  view.clear
  view.change 2 extras.cruiseControl
  view.change 1 extras.sportsPack
  view.change 0 extras.sunRoof

/-- Reads the extras. -/
def read (view : SetView) : Codec Extras := do
  let raw ← view.raw
  pure ⟨SetType.test raw 0, SetType.test raw 1, SetType.test raw 2⟩

end Extras

/-- An engine. -/
structure Engine where
  capacity : UInt16
  numCylinders : UInt8
  manufacturerCode : String
deriving DecidableEq

namespace Engine

/-- The capacity. -/
def capacityField : NumberField := { name := "capacity", offset := 0, primitive := .uint16 }

/-- The number of cylinders. -/
def numCylindersField : NumberField := { name := "numCylinders", offset := 2, primitive := .uint8 }

/-- The greatest number of revolutions, which is the same for all engines. -/
def maxRpm : Nat := 9000

/-- The code of the manufacturer. -/
def manufacturerCodeField : TextField := { name := "manufacturerCode", offset := 3, length := 3 }

/-- The fuel, which is the same for all engines. -/
def fuel : ConstantText := ⟨"fuel", "Petrol"⟩

/-- The composite of an engine. -/
def type : CompositeType :=
  ⟨"Engine", 6, [.number capacityField, .number numCylindersField, .constantNumber "maxRpm" maxRpm,
    .text manufacturerCodeField, .constantText fuel]⟩

/-- Writes an engine. -/
def write (engine : Engine) (view : CompositeView) : Codec Unit := do
  capacityField.write view.offset engine.capacity.toNat
  numCylindersField.write view.offset engine.numCylinders.toNat
  manufacturerCodeField.write view.offset engine.manufacturerCode

/-- Reads an engine. -/
def read (view : CompositeView) : Codec Engine := do
  let capacity ← capacityField.read view.offset
  let numCylinders ← numCylindersField.read view.offset
  let manufacturerCode ← manufacturerCodeField.read view.offset
  pure ⟨.ofNat capacity, .ofNat numCylinders, manufacturerCode⟩

end Engine

end Sbe.Demo
