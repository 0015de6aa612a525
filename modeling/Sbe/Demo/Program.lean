import Sbe.Demo.Car

/-!
**The demonstration program.**

Writes the example car and prints what a reader finds in it.
-/

namespace Sbe.Demo

open Sbe.Codec

/-- The lines on a fuel figure. -/
def fuelLine (figure : FuelFigure) : String :=
  "  " ++ toString figure.speed.toNat ++ " mph: " ++ Primitive.float.shown figure.mpg.toNat ++
    " mpg (" ++ figure.usageDescription ++ ")"

/-- The lines on a performance figure. -/
def performanceLines (figure : PerformanceFigure) : List String :=
  figure.accelerations.map fun sample =>
    "  octane " ++ toString figure.octaneRating.toNat ++ ": 0-" ++ toString sample.mph.toNat ++
      " mph in " ++ Primitive.float.shown sample.seconds.toNat ++ "s"

/-- The lines on a car that is being read. -/
def carLines (view : MessageView) : Codec (List String) := do
  let text ← view.text
  let engine ← (← Car.engineField.view view.offset).text
  let car ← Car.read view
  pure ([text,
    "serial number: " ++ toString car.serialNumber.toNat,
    "model year:    " ++ toString car.modelYear.toNat,
    "available:     " ++ car.available.text,
    "engine:        " ++ engine] ++
    car.fuelFigures.map fuelLine ++ car.performanceFigures.flatMap performanceLines ++
    ["manufacturer:  " ++ car.manufacturer,
      "model:         " ++ car.model,
      "activation:    " ++ toString car.activationCode.length ++ " bytes"])

/-- What the program prints. -/
def program : Outcome CodecError String :=
  let empty := MessageShape.fresh (.ofList (List.replicate 512 0))
  let (encoded, wire) := (Car.encode Car.sample).run empty
  encoded.bind fun length =>
    let reading : Codec (List String) := do carLines (← Car.shape.openByHeader)
    let written := MessageShape.fresh (.ofList (wire.buffer.toList.take length))
    (reading.run written).1.map fun lines =>
      String.join ((("encoded " ++ toString length ++ " bytes") :: lines).map (· ++ "\n"))

end Sbe.Demo
