import Sbe.Codec.Pattern
import Sbe.Codec.Render

/-!
**Fields of a fixed block.**

A field stands at an offset from the start of its block. A message older than the field does not
hold it: reading then gives the null value, nothing, or no view.
-/

namespace Sbe.Codec

open Sbe.Text (Charset)

/-- The descriptive attributes of a field. -/
structure Attributes where
  epoch : String := ""
  timeUnit : String := ""
  semanticType : String := ""
  presence : Presence := .required
deriving DecidableEq

/-- The name of a field, its offset in its block, the version that introduced it, and its
attributes. -/
structure Place where
  name : String
  offset : Nat
  since : Nat := 0
  attributes : Attributes := {}
deriving DecidableEq

/-- Whether the bytes are older than an element. -/
def isOlder (since : Nat) : Codec Bool := do pure (decide ((← version) < since))

/-! ### Numbers -/

/-- A field of one number. -/
structure NumberField extends Place where
  primitive : Primitive
deriving DecidableEq

namespace NumberField

/-- The bit pattern of the number, the null value in an older message. -/
def read (field : NumberField) (base : Nat) : Codec Nat := do
  if ← isOlder field.since then pure field.primitive.nullPattern
  else getNumber field.primitive (base + field.offset)

/-- Writes the bit pattern of the number. -/
def write (field : NumberField) (base pattern : Nat) : Codec Unit :=
  putNumber field.primitive (base + field.offset) pattern

end NumberField

/-! ### Arrays -/

/-- A field of several numbers. -/
structure ArrayField extends Place where
  primitive : Primitive
  length : Nat
deriving DecidableEq

namespace ArrayField

/-- The index of an element in the buffer. -/
def elementIndex (field : ArrayField) (base index : Nat) : Nat :=
  base + field.offset + index * field.primitive.size

/-- Refuses an index past the end. -/
def testIndex (field : ArrayField) (index : Nat) : Codec Unit :=
  if index < field.length then pure ()
  else refuse (.indexOutOfRange field.name index field.length)

/-- The bit pattern of an element, the null value in an older message. -/
def readAt (field : ArrayField) (base index : Nat) : Codec Nat := do
  field.testIndex index
  if ← isOlder field.since then pure field.primitive.nullPattern
  else getNumber field.primitive (field.elementIndex base index)

/-- Writes the bit pattern of an element. -/
def writeAt (field : ArrayField) (base index pattern : Nat) : Codec Unit := do
  field.testIndex index
  putNumber field.primitive (field.elementIndex base index) pattern

end ArrayField

/-! ### Texts of fixed length -/

/-- A field of characters, padded with NUL. -/
structure TextField extends Place where
  length : Nat
  charset : Charset := .ascii
deriving DecidableEq

namespace TextField

/-- The characters as an array. -/
def elements (field : TextField) : ArrayField :=
  { field.toPlace with primitive := .char, length := field.length }

/-- Copies the characters into a destination that must be long enough; gives how many were copied,
and the destination. -/
def copy (field : TextField) (base : Nat) (destination : List UInt8) :
    Codec (Nat × List UInt8) := do
  if destination.length < field.length then
    refuse (.destinationTooSmall field.name field.length destination.length)
  else if ← isOlder field.since then pure (0, destination)
  else
    let bytes ← slice (base + field.offset) field.length
    pure (field.length, bytes ++ destination.drop field.length)

/-- The text up to the first NUL, empty in an older message. -/
def read (field : TextField) (base : Nat) : Codec String := do
  if ← isOlder field.since then pure ""
  else
    let bytes ← slice (base + field.offset) field.length
    pure (field.charset.decode (Text.beforeNul bytes))

/-- Writes bytes, cut to the length of the field or padded with NUL. -/
def put (field : TextField) (base : Nat) (source : List UInt8) : Codec Unit := do
  let kept := source.take field.length
  putBytes (base + field.offset) kept
  fill (base + field.offset + kept.length) (field.length - kept.length) 0

/-- Writes a text. -/
def write (field : TextField) (base : Nat) (text : String) : Codec Unit := do
  field.put base (← encodeText field.charset text)

end TextField

/-! ### Enums -/

/-- An enum: its variants with their values, and its null value. -/
structure EnumType where
  name : String
  primitive : Primitive
  variants : List (String × Nat)
  null : Nat
deriving DecidableEq

/-- A value of an enum. -/
inductive EnumValue (type : EnumType) where
  | variant (position : Fin type.variants.length)
  | null
deriving DecidableEq

namespace EnumValue

variable {type : EnumType}

/-- The bit pattern of a value. -/
def raw : EnumValue type → Nat
  | variant position => (type.variants.get position).2
  | null => type.null

/-- The name of a value in the schema. -/
def text : EnumValue type → String
  | variant position => (type.variants.get position).1
  | null => "NULL_VAL"

/-- The value of a bit pattern; a variant comes before the null value. -/
def ofRaw (type : EnumType) (raw : Nat) : Outcome CodecError (EnumValue type) :=
  match type.variants.findFinIdx? fun variant => variant.2 == raw with
  | some position => .ok (variant position)
  | none =>
    if raw = type.null then .ok null
    else .refuse (.unknownEnumValue type.name (type.primitive.value raw))

/-- The variant of a given name. -/
def ofName? (type : EnumType) (name : String) : Option (EnumValue type) :=
  (type.variants.findFinIdx? fun variant => variant.1 == name).map variant

end EnumValue

/-- A field of an enum. -/
structure EnumField extends Place where
  type : EnumType
deriving DecidableEq

namespace EnumField

/-- The bit pattern of the value, the null value in an older message. -/
def readRaw (field : EnumField) (base : Nat) : Codec Nat := do
  if ← isOlder field.since then pure field.type.null
  else getNumber field.type.primitive (base + field.offset)

/-- The value; a bit pattern of no variant is refused. -/
def read (field : EnumField) (base : Nat) : Codec (EnumValue field.type) := do
  ofOutcome (EnumValue.ofRaw field.type (← field.readRaw base))

/-- Writes a value. -/
def write (field : EnumField) (base : Nat) (value : EnumValue field.type) : Codec Unit :=
  putNumber field.type.primitive (base + field.offset) value.raw

end EnumField

/-! ### Sets -/

/-- A set: its choices with their bits. -/
structure SetType where
  name : String
  primitive : Primitive
  choices : List (String × Nat)
deriving DecidableEq

namespace SetType

/-- Whether a bit is set. -/
def test (raw bit : Nat) : Bool := raw.testBit bit

/-- A bit pattern with one bit set or cleared. -/
def change (raw bit : Nat) (value : Bool) : Nat :=
  if value then raw ||| 1 <<< bit else raw ^^^ (raw &&& 1 <<< bit)

/-- The names of the choices that are set in a bit pattern. -/
def text (type : SetType) (raw : Nat) : String :=
  "\x7b" ++ String.intercalate "," ((type.choices.filter fun choice => test raw choice.2).map
    Prod.fst) ++ "\x7d"

end SetType

/-- A set at a place in the buffer. -/
structure SetView where
  type : SetType
  offset : Nat
deriving DecidableEq

namespace SetView

/-- The bit pattern of the set. -/
def raw (view : SetView) : Codec Nat := getNumber view.type.primitive view.offset

/-- Clears all bits. -/
def clear (view : SetView) : Codec Unit := putNumber view.type.primitive view.offset 0

/-- Sets or clears one bit. -/
def change (view : SetView) (bit : Nat) (value : Bool) : Codec Unit := do
  putNumber view.type.primitive view.offset (SetType.change (← view.raw) bit value)

/-- Writes the names of those among some choices that are set, with a comma before each but the
first of all. -/
def renderChoices {σ : Type} (sink : Sink σ) (view : SetView) :
    Bool → List (String × Nat) → Render σ Unit
  | _, [] => pure ()
  | more, (name, bit) :: rest => do
    if SetType.test (← Render.read view.raw) bit then
      if more then Render.write sink ","
      Render.write sink name
      renderChoices sink view true rest
    else renderChoices sink view more rest

/-- Writes the names of the choices that are set. -/
def render {σ : Type} (sink : Sink σ) (view : SetView) : Render σ Unit := do
  Render.write sink "\x7b"
  view.renderChoices sink false view.type.choices
  Render.write sink "\x7d"

/-- The names of the choices that are set. -/
def text (view : SetView) : Codec String := Render.toText (view.render .text)

end SetView

/-- A field of a set. -/
structure SetField extends Place where
  type : SetType
deriving DecidableEq

namespace SetField

/-- The set at its place. -/
def view (field : SetField) (base : Nat) : Codec SetView := do
  pure ⟨field.type, ← ofOutcome (addSize base field.offset)⟩

/-- The set at its place, nothing in an older message. -/
def view? (field : SetField) (base : Nat) : Codec (Option SetView) := do
  if ← isOlder field.since then pure none else pure (some (← field.view base))

end SetField

end Sbe.Codec
