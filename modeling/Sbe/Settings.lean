/-!
**Settings of a generation run.**

One set of settings holds for all units of a run.
-/

namespace Sbe

/-- What a generation run may be told. -/
structure Settings where
  /-- Read an unknown enum value as a variant of its own instead of failing. -/
  decodeUnknownEnumValues : Bool := false
  /-- Add the shared interfaces to message and composite codecs. -/
  generateInterfaces : Bool := false
  /-- What to append to a name that is a reserved word. -/
  keywordAppendToken : Option String := none
  /-- The path under which generated source finds its support library. -/
  supportPath : String := "brine_sbe"
  /-- The path of the buffer that decoders read. -/
  readBuffer : String := "brine_sbe::ReadBuf"
  /-- The path of the buffer that encoders write. -/
  writeBuffer : String := "brine_sbe::WriteBuf"
deriving DecidableEq

end Sbe
