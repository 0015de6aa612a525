import Sbe.Demo.Car
import Sbe.Proofs.Reading

/-!
**Cars from a newer schema.**

A newer schema may put further fields behind the known ones in any block, and says so in the header
and in front of each group. A reader of the older schema steps over them.

* `CarRecord`: the bytes of a car by its blocks and values, each block filled up with further bytes;
* `CarReading`: a way to read a car in the order of its schema;
* `CarRecord.tells`: what a reading tells;
* `extended_car_reads_as_trimmed`: the further bytes make no difference to it.
-/

namespace Sbe.Demo

open Sbe.Codec
open Sbe.Codec.MessageShape (fresh)

/-! ### Cars with longer blocks -/

/-- A block of `size` known bytes that is filled up with `extra` others. -/
structure FilledBlock (size extra : Nat) where
  part : Vector UInt8 size
  filler : Vector UInt8 extra

namespace FilledBlock

variable {size extra : Nat}

/-- The bytes of a block. -/
def bytes (block : FilledBlock size extra) : List UInt8 := block.part.toList ++ block.filler.toList

/-- The known part of a block. -/
def trim (block : FilledBlock size extra) : FilledBlock size 0 := ⟨block.part, #v[]⟩

theorem length_bytes (block : FilledBlock size extra) : block.bytes.length = size + extra := by
  rw [bytes, List.length_append, Vector.length_toList, Vector.length_toList]

end FilledBlock

/-- A value of variable length whose length has 32 bits. -/
structure ShortValue where
  bytes : List UInt8
  short : bytes.length < patternCount 4

/-- As many repetitions as 16 bits can count. -/
structure Counted (α : Type) where
  items : List α
  few : items.length < patternCount 2

/-- The same number of other repetitions. -/
def Counted.map {α β : Type} (counted : Counted α) (image : α → β) : Counted β :=
  ⟨counted.items.map image, by rw [List.length_map]; exact counted.few⟩

/-- A fuel figure on the wire. -/
structure FuelRecord (fuelExtra : Nat) where
  block : FilledBlock FuelFigure.shape.blockLength fuelExtra
  usageDescription : ShortValue

/-- A performance figure on the wire. -/
structure PerformanceRecord (performanceExtra accelerationExtra : Nat) where
  block : FilledBlock PerformanceFigure.shape.blockLength performanceExtra
  accelerations : Counted (FilledBlock Acceleration.shape.blockLength accelerationExtra)

/-- A car on the wire. -/
structure CarRecord (carExtra fuelExtra performanceExtra accelerationExtra : Nat) where
  block : FilledBlock Car.shape.blockLength carExtra
  fuelFigures : Counted (FuelRecord fuelExtra)
  performanceFigures : Counted (PerformanceRecord performanceExtra accelerationExtra)
  manufacturer : ShortValue
  model : ShortValue
  activationCode : ShortValue

/-- The bytes of a group: its dimensions, then the block and the tail of each repetition. -/
def Counted.groupBytes {α : Type} {size extra : Nat} (block : α → FilledBlock size extra)
    (tail : α → List UInt8) (counted : Counted α) : List UInt8 :=
  dimensionBytes (size + extra) counted.items.length ++
    repetitions (fun item => (block item).part.toList ++ (block item).filler.toList) tail
      counted.items

namespace FuelRecord

variable {fuelExtra : Nat}

/-- The bytes behind the block of a fuel figure. -/
def tail (record : FuelRecord fuelExtra) : List UInt8 := sizedBytes record.usageDescription.bytes

/-- A fuel figure without further bytes. -/
def trim (record : FuelRecord fuelExtra) : FuelRecord 0 :=
  { record with block := record.block.trim }

end FuelRecord

namespace PerformanceRecord

variable {performanceExtra accelerationExtra : Nat}

/-- The bytes behind the block of a performance figure. -/
def tail (record : PerformanceRecord performanceExtra accelerationExtra) : List UInt8 :=
  record.accelerations.groupBytes id fun _ => []

/-- A performance figure without further bytes. -/
def trim (record : PerformanceRecord performanceExtra accelerationExtra) : PerformanceRecord 0 0 :=
  ⟨record.block.trim, record.accelerations.map FilledBlock.trim⟩

end PerformanceRecord

namespace CarRecord

variable {carExtra fuelExtra performanceExtra accelerationExtra : Nat}

/-- The bytes behind the block of a car. -/
def tail (record : CarRecord carExtra fuelExtra performanceExtra accelerationExtra) : List UInt8 :=
  record.fuelFigures.groupBytes FuelRecord.block FuelRecord.tail ++
    (record.performanceFigures.groupBytes PerformanceRecord.block PerformanceRecord.tail ++
      (sizedBytes record.manufacturer.bytes ++
        (sizedBytes record.model.bytes ++ sizedBytes record.activationCode.bytes)))

/-- The header of a car in a version. -/
def header (_ : CarRecord carExtra fuelExtra performanceExtra accelerationExtra) (version : Nat) :
    Header :=
  { Car.shape.header with blockLength := Car.shape.blockLength + carExtra, version }

/-- The bytes of a car behind its header. -/
def bytes (record : CarRecord carExtra fuelExtra performanceExtra accelerationExtra)
    (version : Nat) : List UInt8 :=
  (record.header version).bytes ++ (record.block.bytes ++ record.tail)

/-- A car without further bytes. -/
def trim (record : CarRecord carExtra fuelExtra performanceExtra accelerationExtra) :
    CarRecord 0 0 0 0 :=
  { record with
    block := record.block.trim
    fuelFigures := record.fuelFigures.map FuelRecord.trim
    performanceFigures := record.performanceFigures.map PerformanceRecord.trim }

end CarRecord

/-! ### Readings -/

/-- Looks at a block. -/
structure Looks (members : List Member) where
  accesses : List Access
  only : accesses.all (Access.looksAt members) = true

/-- A way to take a value of variable length. -/
structure Taking (field : VarField) where
  access : FieldAccess
  takes : field.takes access = true

/-- A way to read a car in the order of its schema: any looks at the blocks, and every value of
variable length taken in some way. -/
structure CarReading where
  car : Looks Car.shape.members
  fuelFigure : Looks FuelFigure.shape.members
  usageDescription : Taking FuelFigure.usageDescriptionField
  performanceFigure : Looks PerformanceFigure.shape.members
  acceleration : Looks Acceleration.shape.members
  manufacturer : Taking Car.manufacturerField
  model : Taking Car.modelField
  activationCode : Taking Car.activationCodeField

/-- The steps of looks. -/
def Looks.steps {members : List Member} (looks : Looks members) : List Step :=
  looks.accesses.map Access.step

/-- The step that takes a value. -/
def Taking.steps {field : VarField} (taking : Taking field) : List Step :=
  [.field field.name taking.access]

/-- The steps that go through a group. -/
def throughGroup (shape : GroupShape) (inner : List Step) : List Step :=
  [.group shape.name none [.forEach inner]]

namespace CarReading

/-- The steps on a fuel figure. -/
def fuelSteps (reading : CarReading) : List Step :=
  reading.fuelFigure.steps ++ reading.usageDescription.steps

/-- The steps on a performance figure. -/
def performanceSteps (reading : CarReading) : List Step :=
  reading.performanceFigure.steps ++ throughGroup Acceleration.shape reading.acceleration.steps

/-- The steps on a car. -/
def steps (reading : CarReading) : List Step :=
  reading.car.steps ++ (throughGroup FuelFigure.shape reading.fuelSteps ++
    (throughGroup PerformanceFigure.shape reading.performanceSteps ++
      (reading.manufacturer.steps ++ (reading.model.steps ++ reading.activationCode.steps))))

end CarReading

/-! ### What a reading tells -/

/-- What looks tell of a block. -/
def Looks.news {members : List Member} (looks : Looks members) (block : List UInt8) : List Entry :=
  looks.accesses.map fun access => .ofOutcome (access.found schemaVersion members block)

/-- What is told of a value that is taken. -/
def Taking.news {field : VarField} (taking : Taking field) (value : ShortValue) : List Entry :=
  [.gave (field.taken value.bytes taking.access) 0]

/-- What is told of a group. -/
def Counted.news {α : Type} (counted : Counted α) (news : α → List Entry) : List Entry :=
  .opened counted.items.length 0 :: (counted.items.flatMap news ++ [.finished 0, .finished 0])

theorem Counted.news_map {α β : Type} (counted : Counted α) (image : α → β)
    (news : β → List Entry) :
    (counted.map image).news news = counted.news fun item => news (image item) := by
  rw [Counted.news, Counted.news, Counted.map, List.length_map, List.flatMap_map]

section Told

variable {members : List Member} {element : Element} {block : List UInt8}

theorem Looks.tells (looks : Looks members) (same : element.members = members)
    (new : members.all (Member.isKnown schemaVersion) = true)
    (inside : blockExtent members ≤ block.length) (short : block.length < wordBound) :
    Tells schemaVersion looks.steps element block [] (looks.news block) := by
  subst same
  exact Tells.looks looks.only new inside short

theorem Taking.tells {field : VarField} (taking : Taking field) (value : ShortValue)
    (new : field.since ≤ schemaVersion) (apart : Member.find? element.members field.name = none)
    (found : element.varField? field.name = some field) :
    Tells schemaVersion taking.steps element block (sizedBytes value.bytes) (taking.news value) :=
  Tells.take taking.takes new value.short apart found

theorem Counted.tells {α : Type} {shape : GroupShape} {size extra : Nat} {inner : List Step}
    {part : α → FilledBlock size extra} {tail : α → List UInt8} {news : α → List Entry}
    (counted : Counted α) (found : element.group? shape.name = some shape)
    (new : shape.since ≤ schemaVersion)
    (each : ∀ item view, Tells schemaVersion inner (.group shape view) (part item).part.toList
      (tail item) (news item))
    (fits : size + extra < patternCount 2) :
    Tells schemaVersion (throughGroup shape inner) element block (counted.groupBytes part tail)
      (counted.news news) :=
  Tells.group found new (fun item _ => each item) (fun item _ => (part item).length_bytes) fits
    counted.few

end Told

/-- What a reading tells of a fuel figure. -/
def FuelRecord.news {fuelExtra : Nat} (reading : CarReading) (record : FuelRecord fuelExtra) :
    List Entry :=
  reading.fuelFigure.news record.block.part.toList ++
    reading.usageDescription.news record.usageDescription

theorem FuelRecord.tells {fuelExtra : Nat} (reading : CarReading) (record : FuelRecord fuelExtra)
    (view : GroupView) :
    Tells schemaVersion reading.fuelSteps (.group FuelFigure.shape view) record.block.part.toList
      record.tail (record.news reading) := by
  have length := record.block.part.length_toList
  have looks : Tells schemaVersion reading.fuelFigure.steps (.group FuelFigure.shape view)
      record.block.part.toList [] _ :=
    reading.fuelFigure.tells rfl (by decide) (by rw [length]; decide) (by rw [length]; decide)
  exact looks.append (reading.usageDescription.tells _ (by decide) rfl rfl)

section Performance

variable {performanceExtra accelerationExtra : Nat}

/-- What a reading tells of a performance figure. -/
def PerformanceRecord.news (reading : CarReading)
    (record : PerformanceRecord performanceExtra accelerationExtra) : List Entry :=
  reading.performanceFigure.news record.block.part.toList ++
    record.accelerations.news fun block => reading.acceleration.news block.part.toList

theorem PerformanceRecord.tells (reading : CarReading)
    (record : PerformanceRecord performanceExtra accelerationExtra)
    (fits : Acceleration.shape.blockLength + accelerationExtra < patternCount 2)
    (view : GroupView) :
    Tells schemaVersion reading.performanceSteps (.group PerformanceFigure.shape view)
      record.block.part.toList record.tail (record.news reading) := by
  have length := record.block.part.length_toList
  have looks : Tells schemaVersion reading.performanceFigure.steps
      (.group PerformanceFigure.shape view) record.block.part.toList [] _ :=
    reading.performanceFigure.tells rfl (by decide) (by rw [length]; decide)
      (by rw [length]; decide)
  have acceleration (block : FilledBlock Acceleration.shape.blockLength accelerationExtra)
      (view : GroupView) : Tells schemaVersion reading.acceleration.steps
        (.group Acceleration.shape view) block.part.toList [] _ :=
    reading.acceleration.tells rfl (by decide) (by rw [block.part.length_toList]; decide)
      (by rw [block.part.length_toList]; decide)
  exact looks.append (record.accelerations.tells rfl (by decide) acceleration fits)

end Performance

namespace CarRecord

variable {carExtra fuelExtra performanceExtra accelerationExtra : Nat}

/-- What a reading tells of a car. -/
def news (reading : CarReading)
    (record : CarRecord carExtra fuelExtra performanceExtra accelerationExtra) : List Entry :=
  reading.car.news record.block.part.toList ++
    (record.fuelFigures.news (FuelRecord.news reading) ++
      (record.performanceFigures.news (PerformanceRecord.news reading) ++
        (reading.manufacturer.news record.manufacturer ++
          (reading.model.news record.model ++ reading.activationCode.news record.activationCode))))

/-- The further bytes are not told. -/
theorem news_trim (reading : CarReading)
    (record : CarRecord carExtra fuelExtra performanceExtra accelerationExtra) :
    record.trim.news reading = record.news reading := by
  have performance : (fun figure : PerformanceRecord performanceExtra accelerationExtra =>
      figure.trim.news reading) = PerformanceRecord.news reading := by
    funext figure
    unfold PerformanceRecord.news PerformanceRecord.trim
    rw [Counted.news_map]
    rfl
  unfold news trim
  rw [Counted.news_map, Counted.news_map, performance]
  rfl

/-- The extended lengths of all blocks have 16 bits. -/
structure Fits (carExtra fuelExtra performanceExtra accelerationExtra : Nat) : Prop where
  car : Car.shape.blockLength + carExtra < patternCount 2
  fuelFigure : FuelFigure.shape.blockLength + fuelExtra < patternCount 2
  performanceFigure : PerformanceFigure.shape.blockLength + performanceExtra < patternCount 2
  acceleration : Acceleration.shape.blockLength + accelerationExtra < patternCount 2

theorem tells (record : CarRecord carExtra fuelExtra performanceExtra accelerationExtra)
    (fits : Fits carExtra fuelExtra performanceExtra accelerationExtra) (reading : CarReading)
    (offset blockLength : Nat) :
    Tells schemaVersion reading.steps (.message ⟨Car.shape, offset, blockLength⟩)
      record.block.part.toList record.tail (record.news reading) := by
  have length := record.block.part.length_toList
  have looks : Tells schemaVersion reading.car.steps (.message ⟨Car.shape, offset, blockLength⟩)
      record.block.part.toList [] _ :=
    reading.car.tells rfl (by decide) (by rw [length]; decide) (by rw [length]; decide)
  exact looks.append
    ((record.fuelFigures.tells rfl (by decide) (FuelRecord.tells reading) fits.fuelFigure).append
      ((record.performanceFigures.tells rfl (by decide)
          (fun figure => figure.tells reading fits.acceleration) fits.performanceFigure).append
        ((reading.manufacturer.tells _ (by decide) rfl rfl).append
          ((reading.model.tells _ (by decide) rfl rfl).append
            (reading.activationCode.tells _ (by decide) rfl rfl)))))

/-! ### The length of a car -/

theorem length_groupBytes_le {α : Type} {size extra most : Nat} (part : α → FilledBlock size extra)
    (tail : α → List UInt8) (counted : Counted α) (fits : size + extra < patternCount 2)
    (bounded : ∀ item, (tail item).length ≤ most) :
    (counted.groupBytes part tail).length ≤ 4 + 65535 * (65535 + most) := by
  have few : counted.items.length ≤ 65535 := Nat.le_of_lt_succ counted.few
  have wide : size + extra ≤ 65535 := Nat.le_of_lt_succ fits
  have each : ∀ item ∈ counted.items,
      ((part item).part.toList ++ (part item).filler.toList).length + (tail item).length ≤
        65535 + most := by
    intro item _
    have length := (part item).length_bytes
    rw [FilledBlock.bytes] at length
    have short := bounded item
    omega
  have all := length_repetitions_le each
  have total := Nat.mul_le_mul_right (65535 + most) few
  rw [Counted.groupBytes, List.length_append, length_dimensionBytes, GroupShape.headerSize]
  omega

theorem length_sizedBytes_le (value : ShortValue) :
    (sizedBytes value.bytes).length ≤ 4294967299 := by
  have short : value.bytes.length ≤ 4294967295 := Nat.le_of_lt_succ value.short
  rw [length_sizedBytes, VarField.headerLength]
  omega

theorem length_bytes (record : CarRecord carExtra fuelExtra performanceExtra accelerationExtra)
    (version : Nat) : (record.bytes version).length =
      headerType.encodedLength + (Car.shape.blockLength + carExtra) + record.tail.length := by
  rw [bytes, List.length_append, List.length_append, Header.length_bytes, FilledBlock.length_bytes,
    ← Nat.add_assoc]

/-- No car is too long for a buffer. -/
theorem length_bytes_lt (record : CarRecord carExtra fuelExtra performanceExtra accelerationExtra)
    (fits : Fits carExtra fuelExtra performanceExtra accelerationExtra) (version : Nat) :
    (record.bytes version).length < wordBound := by
  have car : Car.shape.blockLength + carExtra ≤ 65535 := Nat.le_of_lt_succ fits.car
  have fuel :=
    length_groupBytes_le FuelRecord.block FuelRecord.tail record.fuelFigures fits.fuelFigure
      fun figure => length_sizedBytes_le figure.usageDescription
  have performance := length_groupBytes_le PerformanceRecord.block PerformanceRecord.tail
    record.performanceFigures fits.performanceFigure fun figure =>
      length_groupBytes_le id (fun _ => []) figure.accelerations fits.acceleration
        fun _ => Nat.le_refl 0
  have manufacturer := length_sizedBytes_le record.manufacturer
  have model := length_sizedBytes_le record.model
  have activationCode := length_sizedBytes_le record.activationCode
  have header : headerType.encodedLength = 8 := rfl
  rw [length_bytes, tail, header]
  simp only [List.length_append, wordBound]
  omega

/-- What a session that reads a car tells, and where it ends. -/
theorem told (record : CarRecord carExtra fuelExtra performanceExtra accelerationExtra)
    (fits : Fits carExtra fuelExtra performanceExtra accelerationExtra) (reading : CarReading)
    {version : Nat} (new : schemaVersion ≤ version) (small : version < patternCount 2) :
    Session.completes (fresh (.ofList (record.bytes version))) Car.shape.openByHeader
      reading.steps ∧
    (Session.entries (fresh (.ofList (record.bytes version))) Car.shape.openByHeader
        reading.steps).1.map Entry.forget =
      .opened headerType.encodedLength 0 :: record.news reading ∧
    (Session.entries (fresh (.ofList (record.bytes version))) Car.shape.openByHeader
        reading.steps).2.cursor.limit = (record.bytes version).length := by
  have short := record.length_bytes_lt fits version
  have length := record.length_bytes version
  have whole : (Buffer.ofList (record.bytes version)).Holds 0
      ((record.header version).bytes ++ (record.block.bytes ++ record.tail)) :=
    ⟨[], [], by simp [bytes], rfl⟩
  have template : Car.shape.templateId < patternCount 2 := by decide
  have schema : Car.shape.schemaId < patternCount 2 := by decide
  have opened : Car.shape.openByHeader.run (fresh (.ofList (record.bytes version))) = _ :=
    MessageShape.run_openByHeader ⟨fits.car, template, schema, small⟩ whole.left
      (Nat.lt_of_le_of_lt (Nat.le_add_right _ _) (length ▸ short))
  -- Behind the header stand the block and the tail; the limit is behind the whole block on the
  -- wire.
  have behind := whole.right
  rw [Header.length_bytes, Nat.zero_add] at behind
  have tailBehind := behind.right
  rw [FilledBlock.length_bytes] at tailBehind
  have shown :
      Shows schemaVersion ⟨.ofList (record.bytes version),
          ⟨headerType.encodedLength + (Car.shape.blockLength + carExtra), version⟩⟩
        headerType.encodedLength record.block.part.toList := by
    refine ⟨new, behind.left.left, ?_⟩
    rw [Vector.length_toList]
    omega
  obtain ⟨ended, told, stopped⟩ := (record.tells fits reading _ _).entries opened shown tailBehind
    (length ▸ short)
  refine ⟨ended, told, ?_⟩
  rw [stopped, length]
  rfl

end CarRecord

/-- A car whose blocks are longer than the schema knows is read without a fault, tells every reader
the same as the car without the further bytes, and is read to its end. -/
theorem extended_car_reads_as_trimmed
    {carExtra fuelExtra performanceExtra accelerationExtra : Nat}
    (record : CarRecord carExtra fuelExtra performanceExtra accelerationExtra)
    (fits : CarRecord.Fits carExtra fuelExtra performanceExtra accelerationExtra)
    (reading : CarReading) {version : Nat} (new : schemaVersion ≤ version)
    (small : version < patternCount 2) :
    Session.completes (fresh (.ofList (record.bytes version))) Car.shape.openByHeader
      reading.steps ∧
    (Session.entries (fresh (.ofList (record.bytes version))) Car.shape.openByHeader
        reading.steps).1.map Entry.forget =
      (Session.entries (fresh (.ofList (record.trim.bytes schemaVersion))) Car.shape.openByHeader
        reading.steps).1.map Entry.forget ∧
    (Session.entries (fresh (.ofList (record.bytes version))) Car.shape.openByHeader
        reading.steps).2.cursor.limit = (record.bytes version).length := by
  have trimmed : CarRecord.Fits 0 0 0 0 := ⟨by decide, by decide, by decide, by decide⟩
  obtain ⟨ended, told, stopped⟩ := record.told fits reading new small
  obtain ⟨_, heard, _⟩ := record.trim.told trimmed reading (Nat.le_refl _) (by decide)
  rw [record.news_trim] at heard
  exact ⟨ended, told.trans heard.symm, stopped⟩

/-- A car with one figure of each kind, all of whose blocks are filled up. -/
def filledCar : CarRecord 2 1 3 4 where
  block := ⟨.replicate _ 5, .replicate _ 255⟩
  fuelFigures := ⟨[⟨⟨.replicate _ 6, .replicate _ 255⟩, ⟨[65, 66], by decide⟩⟩], by decide⟩
  performanceFigures :=
    ⟨[⟨⟨.replicate _ 7, .replicate _ 255⟩, ⟨[⟨.replicate _ 8, .replicate _ 255⟩], by decide⟩⟩],
      by decide⟩
  manufacturer := ⟨[67, 200], by decide⟩
  model := ⟨[], by decide⟩
  activationCode := ⟨[1, 2, 3], by decide⟩

/-- A reading that looks at fields of all blocks, also at an enum with no such value. -/
def briefReading : CarReading where
  car := ⟨[.field "modelYear" .read, .field "available" .read, .field "someNumbers" (.readAt 3),
    .bitSet "extras" (.test "sunRoof"), .composite "engine" (.part "manufacturerCode" .readText)],
    by decide⟩
  fuelFigure := ⟨[.field "mpg" .read], by decide⟩
  usageDescription := ⟨.readText, by decide⟩
  performanceFigure := ⟨[.field "octaneRating" .read], by decide⟩
  acceleration := ⟨[.field "mph" .read, .field "seconds" .read], by decide⟩
  manufacturer := ⟨.readText, by decide⟩
  model := ⟨.skip, by decide⟩
  activationCode := ⟨.copy 2, by decide⟩

theorem filledCar_reads_as_trimmed :
    CarRecord.Fits 2 1 3 4 ∧ filledCar.bytes 9 ≠ filledCar.trim.bytes schemaVersion ∧
    Session.completes (fresh (.ofList (filledCar.bytes 9))) Car.shape.openByHeader
      briefReading.steps ∧
    (Session.entries (fresh (.ofList (filledCar.bytes 9))) Car.shape.openByHeader
        briefReading.steps).1.map Entry.forget =
      (Session.entries (fresh (.ofList (filledCar.trim.bytes schemaVersion))) Car.shape.openByHeader
        briefReading.steps).1.map Entry.forget ∧
    (Session.entries (fresh (.ofList (filledCar.bytes 9))) Car.shape.openByHeader
        briefReading.steps).2.cursor.limit = 108 := by
  have fits : CarRecord.Fits 2 1 3 4 := ⟨by decide, by decide, by decide, by decide⟩
  have differ : filledCar.bytes 9 ≠ filledCar.trim.bytes schemaVersion := by decide
  have length : (filledCar.bytes 9).length = 108 := by decide
  have new : schemaVersion ≤ 9 := by decide
  obtain ⟨ended, told, stopped⟩ :=
    extended_car_reads_as_trimmed filledCar fits briefReading new (by decide)
  exact ⟨fits, differ, ended, told, stopped.trans length⟩

end Sbe.Demo
