import Sbe.Demo.Parts

/-!
**The message Order.**

An order has a quantity, at most ten fills with their prices, and a note.
-/

namespace Sbe.Demo

open Sbe.Codec

/-- An order. -/
structure Order where
  quantity : UInt32
  prices : List Int16
  note : String
deriving DecidableEq

namespace Order

/-- The quantity. -/
def quantityField : NumberField := { name := "quantity", offset := 0, primitive := .uint32 }

/-- The price of a fill. -/
def priceField : NumberField := { name := "price", offset := 0, primitive := .int16 }

/-- The group of fills. -/
def fills : GroupShape := .mk "fills" 2 0 10 0 [.number priceField] [] []

/-- The note. -/
def noteField : VarField :=
  { name := "note", greatestLength := usualLength, charset := some .utf8 }

/-- The message. -/
def shape : MessageShape where
  name := "Order"
  templateId := 2
  schemaId := schemaId
  version := schemaVersion
  blockLength := 4
  members := [.number quantityField]
  groups := [fills]
  varData := [noteField]

/-- Writes the price of a fill. -/
def writePrice (view : GroupView) (price : Int16) : Codec Unit :=
  priceField.write view.offset price.toUInt16.toNat

/-- Reads the price of a fill. -/
def readPrice (view : GroupView) : Codec Int16 := do
  pure (UInt16.ofNat (← priceField.read view.offset)).toInt16

/-- Writes an order. -/
def write (order : Order) (view : MessageView) : Codec Unit := do
  quantityField.write view.offset order.quantity.toNat
  fills.writeAll order.prices writePrice
  noteField.write .utf8 order.note

/-- Reads an order in the order of its schema. -/
def read (view : MessageView) : Codec Order := do
  let quantity ← quantityField.read view.offset
  let prices ← fills.readAll readPrice
  let note ← noteField.read .utf8
  pure ⟨.ofNat quantity, prices, note⟩

/-- Writes an order behind its header; gives the number of bytes written. -/
def encode (order : Order) : Codec Nat := do
  let view ← shape.openWithHeader 0
  order.write view
  pure (headerType.encodedLength + (← view.encodedLength))

end Order

end Sbe.Demo
