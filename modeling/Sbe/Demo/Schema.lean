import Sbe.Token.Build

/-!
**The demonstration schema.**

The tokens of three messages, and of the types that they share. Version 1 added the elements that
carry it.
-/

namespace Sbe.Demo

open Sbe.Build

/-- A truth value. -/
def booleanTokens (offset : UInt64) : List Token :=
  enumeration "BooleanType" offset (.of .uint8) [("F", .int 0), ("T", .int 1)]

/-- A model of car. -/
def modelTokens (offset : UInt64) : List Token :=
  enumeration "Model" offset (.of .char) [("A", .text "A"), ("B", .text "B"), ("C", .text "C")]

/-- What a car can be fitted with. -/
def extrasTokens (offset : UInt64) : List Token :=
  bitSet "OptionalExtras" offset (.of .uint8)
    [("sunRoof", 0), ("sportsPack", 1), ("cruiseControl", 2)]

/-- An engine. -/
def engineTokens (offset : UInt64) : Result (List Token) := do
  pure <| composite "Engine" offset 6
    [[value "capacity" 0 (.of .uint16)],
      [value "numCylinders" 2 (.of .uint8)],
      [constant "maxRpm" .uint16 (.int 9000)],
      [← array "manufacturerCode" 3 3 (.of .char)],
      [constant "fuel" .char (.text "Petrol")]]

/-- The dimensions of a group with at most `greatest` repetitions. -/
def boundedGroupSize (greatest : Int64) : List Token :=
  composite "groupSizeEncoding" 0 4
    [[value "blockLength" 0 (.of .uint16)],
      [value "numInGroup" 2 { Encoding.of .uint16 with greatest := some (.int greatest) }]]

/-- A field of one number. -/
def numberTokens (name : String) (id : Int32) (version : UInt32) (offset : UInt64)
    (encoding : Encoding) : List Token :=
  field name id version [value name offset encoding]

/-- The message Car. -/
def carTokens : Result (List Token) := do
  pure <| message "Car" 1 42
    [numberTokens "serialNumber" 1 0 0
        { Encoding.of .uint64 with semanticType := some "SerialNumber" },
      numberTokens "modelYear" 2 0 8 (.of .uint16),
      field "available" 3 0 (booleanTokens 10),
      field "code" 4 0 (modelTokens 11),
      field "someNumbers" 5 0 [← array "someNumbers" 12 4 (.of .uint32)],
      field "vehicleCode" 6 0 [← array "vehicleCode" 28 6 (.of .char)],
      field "extras" 7 0 (extrasTokens 34),
      -- The schema fixes the discounted model, so that it takes no space.
      (field "discountedModel" 8 0 (modelTokens 0)).modifyHead fun opening =>
        { opening with
          encodedLength := 0, encoding := (Encoding.of .char).withConstant (.text "Model.C") },
      field "engine" 9 0 (← engineTokens 35),
      numberTokens "cupHolderCount" 20 1 41 { Encoding.of .uint8 with presence := .optional },
      group "fuelFigures" 10 0 6 groupSize
        [numberTokens "speed" 11 0 0 (.of .uint16), numberTokens "mpg" 12 0 2 (.of .float),
          varData "usageDescription" 13 0 (varDataEncoding (some "US-ASCII"))],
      group "performanceFigures" 14 0 1 groupSize
        [numberTokens "octaneRating" 15 0 0 (.of .uint8),
          group "acceleration" 16 0 6 groupSize
            [numberTokens "mph" 17 0 0 (.of .uint16), numberTokens "seconds" 18 0 2 (.of .float)]],
      varData "manufacturer" 21 0 (varDataEncoding (some "UTF-8")),
      varData "model" 22 0 (varDataEncoding (some "UTF-8")),
      varData "activationCode" 23 1 (varDataEncoding none)]

/-- The message Order. -/
def orderTokens : List Token :=
  message "Order" 2 4
    [numberTokens "quantity" 1 0 0 (.of .uint32),
      group "fills" 2 0 2 (boundedGroupSize 10) [numberTokens "price" 3 0 0 (.of .int16)],
      varData "note" 4 0 (varDataEncoding (some "UTF-8"))]

/-- The message Service. -/
def serviceTokens : Result (List Token) := do
  pure <| message "Service" 3 10
    [numberTokens "mileage" 1 0 0 (.of .uint16),
      numberTokens "grade" 2 0 2 (.of .char),
      field "extras" 3 1 (extrasTokens 3),
      field "engine" 4 1 (← engineTokens 4),
      group "stops" 5 1 2 groupSize [numberTokens "odometer" 6 0 0 (.of .uint16)],
      varData "remark" 7 0 (sizedData 8 none)]

/-- The schema. -/
def schema : Result Schema := do
  pure {
    packageName := "demo"
    id := 1
    version := 1
    header := messageHeader
    types := [booleanTokens 0, modelTokens 0, extrasTokens 0, ← engineTokens 0]
    messages := [← carTokens, orderTokens, ← serviceTokens] }

end Sbe.Demo
