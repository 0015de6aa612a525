import Sbe.Source.Property

/-!
**Accessors of fields of variable length.**

A value stands at the limit of the message: its length, then its bytes. Every accessor that consumes
it moves the limit past it.
-/

namespace Sbe.Source

/-- The greatest length that the length field of a value allows. -/
def maxLength (length : Token) : Nat :=
  lowWord ((length.encoding.greatest?.bind Scalar.toInt?).getD 0)

/-- The functions that read a value. -/
def varDataReads (layout : VarDataLayout) (length : Primitive) (accessor upper : String)
    (isText : Bool) : Code :=
  let since := layout.varData.version
  let guarded := decide (0 < since)
  let header := "Self::" ++ upper ++ "_HEADER_LENGTH"
  let consume : Code :=
    ["let length = self." ++ accessor ++ "_length();",
      "let limit = self.cursor.limit();",
      "self.cursor.set_limit(limit + " ++ header ++ " + length);"]
  Code.function (accessor ++ "_length(&self) -> usize")
    (guardIf guarded since "0" ++
    ["let limit = self.cursor.limit();",
      readAt length "self.buffer" "limit" layout.length.encoding.byteOrder ++ " as usize"]) ++
  Code.spaced ("/// Steps the limit past the value and returns its length." ::
    Code.block ("pub fn skip_" ++ accessor ++ "(&mut self) -> usize")
      (guardIf guarded since "0" ++ consume ++ ["length"])) ++
  Code.spaced ("/// The value's bytes, borrowed from the buffer." ::
    Code.block ("pub fn " ++ accessor ++ "_bytes(&mut self) -> &'a [u8]")
      (guardIf guarded since "&[]" ++ consume ++
      ["self.buffer.slice(limit + " ++ header ++ ", length)"])) ++
  Code.spaced ("/// Copies up to `dst.len()` bytes and steps past the whole value." ::
    Code.block ("pub fn get_" ++ accessor ++ "(&mut self, dst: &mut [u8]) -> usize")
      ["let bytes = self." ++ accessor ++ "_bytes();",
        "let length = bytes.len().min(dst.len());",
        "dst[..length].copy_from_slice(&bytes[..length]);",
        "length"]) ++
  if isText then
    Code.function (accessor ++ "(&mut self) -> String")
      ["text::decode(self." ++ accessor ++ "_bytes(), Self::" ++ upper ++ "_CHARACTER_ENCODING)"]
  else []

/-- The functions that write a value. -/
def varDataWrites (layout : VarDataLayout) (length : Primitive) (accessor upper : String)
    (isText : Bool) : Code :=
  let header := "Self::" ++ upper ++ "_HEADER_LENGTH"
  let greatest := "Self::" ++ upper ++ "_MAX_LENGTH"
  Code.function ("put_" ++ accessor ++ "(&mut self, src: &[u8]) -> Result<&mut Self, CodecError>")
    (Code.block ("if src.len() > " ++ greatest)
      ["return Err(CodecError::LengthExceedsMaximum \x7b",
        "    field: " ++ Text.quote layout.varData.name ++ ",",
        "    length: src.len(),",
        "    max: " ++ greatest ++ ",",
        "\x7d);"] ++
    ["let limit = self.cursor.limit();",
      "self.cursor.set_limit(limit + " ++ header ++ " + src.len());",
      writeAt length "self.buffer" "limit" ("src.len() as " ++ length.sourceType)
        layout.length.encoding.byteOrder,
      "self.buffer.put_bytes(limit + " ++ header ++ ", src);",
      "Ok(self)"]) ++
  if isText then
    Code.function ("set_" ++ accessor ++
        "(&mut self, value: &str) -> Result<&mut Self, CodecError>")
      ["let bytes = text::encode(value, Self::" ++ upper ++ "_CHARACTER_ENCODING)?;",
        "self.put_" ++ accessor ++ "(&bytes)"]
  else []

/-- All constants and functions of a field of variable length. -/
def varDataAccessors (settings : Settings) (side : Side) (layout : VarDataLayout) :
    Result Code := do
  let token := layout.varData
  let accessor ← settings.propertyName token.name
  let upper := Name.upperSnakeCase token.name
  let length ← layout.length.primitive
  if length.isFloat then .refuse (.unsupportedPrimitive layout.length.name length)
  let set ←
    match layout.data.encoding.charset with
    | some _ => some <$> charset layout.data
    | none => pure none
  let constants : Code :=
    [Code.constant (upper ++ "_ID") "i32" (toString token.id.toInt),
      Code.constant (upper ++ "_SINCE_VERSION") "u32" (toString token.version.toNat),
      Code.constant (upper ++ "_HEADER_LENGTH") "usize"
        (toString layout.length.encodedLength.toNat),
      Code.constant (upper ++ "_MAX_LENGTH") "usize" (toString (maxLength layout.length))] ++
    (set.map fun set => Code.constant (upper ++ "_CHARACTER_ENCODING") "CharacterEncoding"
      (charsetPath set)).toList
  pure <| Code.spaced constants ++ metaAttributes accessor layout.data ++
    match side with
    | .decoder => varDataReads layout length accessor upper set.isSome
    | .encoder => varDataWrites layout length accessor upper set.isSome

end Sbe.Source
