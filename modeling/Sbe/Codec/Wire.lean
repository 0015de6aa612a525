import Sbe.Buffer
import Sbe.Codec.Error
import Sbe.Text.Charset

/-!
**The wire and work on it.**

A message and all groups inside it share one buffer and one cursor. The limit of the cursor is the
index after everything consumed so far. Work on the wire keeps what it has done when it ends in a
refusal or a fault.
-/

namespace Sbe

/-- The position that a message shares with its groups, and the schema version of its bytes. -/
structure Cursor where
  limit : Nat
  version : Nat
deriving DecidableEq

namespace Cursor

/-- Moves the limit forward; gives the limit before. -/
def advance {ε : Type} (cursor : Cursor) (length : Nat) : Outcome ε (Nat × Cursor) :=
  (addSize cursor.limit length).map fun limit => (cursor.limit, { cursor with limit })

end Cursor

/-- A buffer and the cursor into it. -/
structure Wire where
  buffer : Buffer
  cursor : Cursor
deriving DecidableEq

/-- Work on a wire. -/
abbrev Codec (α : Type) := ExceptT (Halt CodecError) (StateM Wire) α

namespace Codec

variable {α : Type}

/-- An outcome as work that leaves the wire alone. -/
def ofOutcome (outcome : Outcome CodecError α) : Codec α := fun wire => (outcome, wire)

/-- Ends with a refusal. -/
def refuse (cause : CodecError) : Codec α := ofOutcome (.refuse cause)

/-- Ends with a fault. -/
def fault : Codec α := ofOutcome .fault

/-- The current limit. -/
def limit : Codec Nat := fun wire => (.ok wire.cursor.limit, wire)

/-- Sets the limit. -/
def setLimit (limit : Nat) : Codec Unit :=
  fun wire => (.ok (), { wire with cursor := { wire.cursor with limit } })

/-- The schema version of the bytes. -/
def version : Codec Nat := fun wire => (.ok wire.cursor.version, wire)

/-- The number of bytes of the buffer. -/
def capacity : Codec Nat := fun wire => (.ok wire.buffer.capacity, wire)

/-- The bytes of a range. -/
def slice (index length : Nat) : Codec (List UInt8) :=
  fun wire => (wire.buffer.slice index length, wire)

/-- Writes bytes from an index on. -/
def putBytes (index : Nat) (source : List UInt8) : Codec Unit := fun wire =>
  if wire.buffer.holds index source.length then
    (.ok (), { wire with buffer := wire.buffer.overwrite index source })
  else (.error .fault, wire)

/-- Fills a range with one byte. -/
def fill (index length : Nat) (value : UInt8) : Codec Unit := fun wire =>
  if wire.buffer.holds index length then
    (.ok (), { wire with buffer := wire.buffer.overwrite index (List.replicate length value) })
  else (.error .fault, wire)

/-- The bit pattern of a number. -/
def getNumber (primitive : Primitive) (index : Nat) : Codec Nat := do
  pure (ByteOrder.littleEndian.number (← slice index primitive.size))

/-- Writes the bit pattern of a number. -/
def putNumber (primitive : Primitive) (index pattern : Nat) : Codec Unit :=
  putBytes index (ByteOrder.littleEndian.bytes primitive.size pattern)

/-- The bytes of a text in a character set. -/
def encodeText (charset : Text.Charset) (text : String) : Codec (List UInt8) :=
  match charset.encode text with
  | .ok bytes => pure bytes
  | .error character => refuse (.unrepresentable charset.name character)

end Codec

end Sbe
