import Sbe.Codec.Field

/-!
**Composites.**

A composite is a block of its own with numbers, texts and constants.
-/

namespace Sbe.Codec

/-- A text that the schema fixes. -/
structure ConstantText where
  name : String
  text : String
deriving DecidableEq

namespace ConstantText

/-- The bytes of the text. -/
def bytes (constant : ConstantText) : List UInt8 := Text.Utf8.encode constant.text.toList

/-- One byte of the text. -/
def byteAt (constant : ConstantText) (index : Nat) : Outcome CodecError UInt8 :=
  .ofOption (.indexOutOfRange constant.name index constant.bytes.length) constant.bytes[index]?

/-- Copies as much of the text as fits into a destination; gives how many bytes were copied, and the
destination. -/
def copy (constant : ConstantText) (destination : List UInt8) : Nat × List UInt8 :=
  let kept := constant.bytes.take destination.length
  (kept.length, kept ++ destination.drop kept.length)

end ConstantText

/-- A part of a composite. -/
inductive Part where
  | number (field : NumberField)
  | text (field : TextField)
  | constantNumber (name : String) (value : Nat)
  | constantText (constant : ConstantText)
deriving DecidableEq

/-- Whether a part has an entry; constants have none. -/
def Part.isShown : Part → Bool
  | .number _ | .text _ => true
  | .constantNumber .. | .constantText .. => false

/-- A composite: its length and its parts. -/
structure CompositeType where
  name : String
  encodedLength : Nat
  parts : List Part
deriving DecidableEq

/-- A composite at a place in the buffer. -/
structure CompositeView where
  type : CompositeType
  offset : Nat
deriving DecidableEq

namespace CompositeView

/-- Writes the entry of a part. -/
def renderPart {σ : Type} (sink : Sink σ) (view : CompositeView) : Part → Render σ Unit
  | .number field => do
    Render.write sink (field.name ++ "=")
    Render.write sink (field.primitive.shown (← Render.read (field.read view.offset)))
  | .text field => do
    Render.write sink (field.name ++ "=")
    Render.write sink (← Render.read (field.read view.offset))
  | .constantNumber .. | .constantText .. => pure ()

/-- Writes the entries of the parts. -/
def render {σ : Type} (sink : Sink σ) (view : CompositeView) : Render σ Unit := do
  Render.write sink "("
  Render.separated sink "|" ((view.type.parts.filter Part.isShown).map (view.renderPart sink))
  Render.write sink ")"

/-- The composite as text. -/
def text (view : CompositeView) : Codec String := Render.toText (view.render .text)

end CompositeView

/-- A field of a composite. -/
structure CompositeField extends Place where
  type : CompositeType
deriving DecidableEq

namespace CompositeField

/-- The composite at its place. -/
def view (field : CompositeField) (base : Nat) : Codec CompositeView := do
  pure ⟨field.type, ← ofOutcome (addSize base field.offset)⟩

/-- The composite at its place, nothing in an older message. -/
def view? (field : CompositeField) (base : Nat) : Codec (Option CompositeView) := do
  if ← isOlder field.since then pure none else pure (some (← field.view base))

end CompositeField

end Sbe.Codec
