import Sbe.Codec.Field

/-!
**Fields of variable length.**

A value stands at the limit: its length in four bytes, then its bytes. Everything that consumes the
value moves the limit past it.
-/

namespace Sbe.Codec

open Sbe.Text (Charset)

/-- A field of variable length, of text when it has a character set. -/
structure VarField where
  name : String
  greatestLength : Nat
  charset : Option Charset := none
  since : Nat := 0
  attributes : Attributes := {}
deriving DecidableEq

namespace VarField

/-- The number of bytes of a length. -/
def headerLength : Nat := 4

/-- The length of the value, zero in an older message; the limit stays. -/
def length (field : VarField) : Codec Nat := do
  if ← isOlder field.since then pure 0 else getNumber .uint32 (← limit)

/-- Moves the limit past the value that is there; gives the limit before and the length. -/
def consume (field : VarField) : Codec (Nat × Nat) := do
  let length ← field.length
  let start ← limit
  setLimit (← ofOutcome (addSize start (headerLength + length)))
  pure (start, length)

/-- Moves the limit past the value; gives its length, zero in an older message. -/
def skip (field : VarField) : Codec Nat := do
  if ← isOlder field.since then pure 0
  else
    let (_, length) ← field.consume
    pure length

/-- The bytes of the value, none in an older message. -/
def bytes (field : VarField) : Codec (List UInt8) := do
  if ← isOlder field.since then pure []
  else
    let (start, length) ← field.consume
    slice (start + headerLength) length

/-- Copies as much of the value as fits into a destination; gives how many bytes were copied, and
the destination. -/
def copy (field : VarField) (destination : List UInt8) : Codec (Nat × List UInt8) := do
  let kept := (← field.bytes).take destination.length
  pure (kept.length, kept ++ destination.drop kept.length)

/-- The value as text. -/
def read (field : VarField) (charset : Charset) : Codec String := do
  pure (charset.decode (← field.bytes))

/-- Writes bytes; too many are refused. -/
def put (field : VarField) (source : List UInt8) : Codec Unit := do
  if field.greatestLength < source.length then
    refuse (.lengthExceedsMaximum field.name source.length field.greatestLength)
  else
    let start ← limit
    setLimit (← ofOutcome (addSize start (headerLength + source.length)))
    putNumber .uint32 start source.length
    putBytes (start + headerLength) source

/-- Writes a text. -/
def write (field : VarField) (charset : Charset) (text : String) : Codec Unit := do
  field.put (← encodeText charset text)

/-- The value as an entry shows it: text, or the number of its bytes. -/
def text (field : VarField) : Codec String := do
  match field.charset with
  | some charset => field.read charset
  | none => pure (toString (← field.skip) ++ " raw bytes")

end VarField

end Sbe.Codec
