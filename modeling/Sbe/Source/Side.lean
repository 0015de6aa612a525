import Sbe.Name
import Sbe.Schema
import Sbe.Source.Code
import Sbe.Source.Literal

/-!
**The two sides of a codec.**

Every set, composite and message gets a decoder and an encoder. Their units open with the same lines
and carry the same two constants of the schema.
-/

namespace Sbe.Source

/-- Whether a codec reads or writes. -/
inductive Side where
  | decoder
  | encoder
deriving DecidableEq

namespace Side

/-- Both sides, in the order they are generated. -/
def both : List Side := [decoder, encoder]

/-- What the name of a codec ends in. -/
def suffix : Side → String
  | decoder => "Decoder"
  | encoder => "Encoder"

/-- What the name of a unit ends in. -/
def unitSuffix : Side → String
  | decoder => "_decoder"
  | encoder => "_encoder"

/-- The buffer a codec works on. -/
def buffer : Side → String
  | decoder => "ReadBuf"
  | encoder => "WriteBuf"

/-- The traits derived for a codec of a type or message. -/
def derives : Side → String
  | decoder => "#[derive(Debug, Clone, Copy)]"
  | encoder => "#[derive(Debug)]"

/-- The function that lends the buffer of a codec. -/
def bufferFunction : Side → Code
  | decoder => Code.function "buffer(&self) -> ReadBuf<'a>" ["self.buffer"]
  | encoder => Code.function "buffer(&mut self) -> WriteBuf<'_>" ["self.buffer.reborrow()"]

end Side

/-- The name of the codec of a type. -/
def codecName (typeName : String) (side : Side) : String := Name.codecName typeName side.suffix

/-- The lines every unit opens with. -/
def prelude (settings : Settings) : Code :=
  ["// Generated by brine-sbe. Do not edit.",
    "#![allow(dead_code, unused_imports, unused_variables, unused_mut, unused_assignments, " ++
      "unreachable_patterns, non_camel_case_types, non_snake_case, clippy::all)]",
    "",
    "use super::*;",
    "use core::fmt;",
    "use " ++ settings.supportPath ++
      "::\x7btext, ByteOrder, CharacterEncoding, CodecError, Cursor, MetaAttribute\x7d;",
    "use " ++ settings.readBuffer ++ " as ReadBuf;",
    "use " ++ settings.writeBuffer ++ " as WriteBuf;"]

/-- The id and the version of the schema, in the types of the header fields that carry them. -/
def schemaConstants (schema : Schema) : Result Code := do
  let idType ← schema.headerPrimitive .schemaId
  let versionType ← schema.headerPrimitive .version
  let id ← literal idType (.int schema.id.toInt64) HeaderField.schemaId.name
  let version ← literal versionType (.uint schema.version.toUInt64) HeaderField.version.name
  pure [Code.constant "SCHEMA_ID" idType.sourceType id,
    Code.constant "SCHEMA_VERSION" versionType.sourceType version]

/-- The function that shows a codec as text. -/
def display (typeName : String) (body : Code) : Code :=
  Code.spaced <| Code.block ("impl fmt::Display for " ++ typeName) <|
    Code.block "fn fmt(&self, f: &mut fmt::Formatter<'_>) -> fmt::Result" body

end Sbe.Source
