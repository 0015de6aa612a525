import Sbe.Source.Group

/-!
**Units of messages.**

A message has a fixed block, and a cursor that starts right after it and is moved on by groups and
fields of variable length. The encoder can write the message header in front of the body.
-/

namespace Sbe.Source

/-- The types of the header fields that messages refer to. -/
structure HeaderTypes where
  blockLength : Primitive
  templateId : Primitive
  version : Primitive
deriving DecidableEq

/-- The header types of a schema. -/
def headerTypes (schema : Schema) : Result HeaderTypes := do
  let blockLength ← schema.headerPrimitive .blockLength
  let templateId ← schema.headerPrimitive .templateId
  let version ← schema.headerPrimitive .version
  pure ⟨blockLength, templateId, version⟩

/-- The structure of a message. -/
def messageStructure (types : HeaderTypes) (typeName : String) (side : Side) : Code :=
  Code.spaced <| side.derives :: Code.block ("pub struct " ++ typeName ++ "<'a>")
    (["buffer: " ++ side.buffer ++ "<'a>,", "offset: usize,"] ++
    (match side with
      | .decoder => ["acting_block_length: " ++ types.blockLength.sourceType ++ ","]
      | .encoder => []) ++
    ["cursor: Cursor,"])

/-- The function that opens a message for reading. -/
def messageReads (types : HeaderTypes) : Code :=
  Code.function ("wrap(buffer: ReadBuf<'a>, offset: usize, acting_block_length: " ++
      types.blockLength.sourceType ++ ", acting_version: " ++ types.version.sourceType ++
        ") -> Self")
    (Code.block "Self"
      ["buffer,",
        "offset,",
        "acting_block_length,",
        "cursor: Cursor::new(offset + acting_block_length as usize, u64::from(acting_version)),"])

/-- The functions that open a message for writing, without and with its header. -/
def messageWrites (header : String) : Code :=
  let set (field : HeaderField) (constant : String) :=
    "    .set_" ++ Name.snakeCase field.name ++ "(Self::" ++ constant ++ ")"
  Code.function "wrap(buffer: WriteBuf<'a>, offset: usize) -> Self"
    (Code.block "Self"
      ["buffer,",
        "offset,",
        "cursor: Cursor::new(offset + Self::BLOCK_LENGTH as usize, " ++
          "u64::from(Self::SCHEMA_VERSION)),"]) ++
  Code.spaced ("/// Writes the message header at `offset` and wraps the body right after it." ::
    Code.block "pub fn wrap_and_apply_header(mut buffer: WriteBuf<'a>, offset: usize) -> Self"
      [header ++ "::wrap(buffer.reborrow(), offset)",
        set .blockLength "BLOCK_LENGTH",
        set .templateId "TEMPLATE_ID",
        set .schemaId "SCHEMA_ID",
        set .version "SCHEMA_VERSION" ++ ";",
        "Self::wrap(buffer, offset + " ++ header ++ "::ENCODED_LENGTH)"])

/-- How a message is shown; an encoder is shown through a decoder of the same bytes. -/
def messageDisplay (name : String) (side : Side) : Code :=
  display (codecName name side ++ "<'_>") <|
    match side with
    | .decoder => ["let mut decoder = *self;", "decoder.render(f)"]
    | .encoder =>
      [codecName name .decoder ++ "::wrap(self.buffer.as_read(), self.offset, " ++
        "Self::BLOCK_LENGTH, Self::SCHEMA_VERSION).render(f)"]

/-- The shared interfaces of a message. -/
def messageInterfaces (settings : Settings) (typeName : String) (side : Side) : Code :=
  let interface (name : String) (body : Code) : Code :=
    Code.spaced (Code.block ("impl<'a> " ++ settings.supportPath ++ "::" ++ name ++ " for " ++
      typeName ++ "<'a>") body)
  let number (method constant : String) : Code :=
    Code.block ("fn " ++ method ++ "(&self) -> u64") ["Self::" ++ constant ++ " as u64"] ++ [""]
  interface "Flyweight"
    (Code.block "fn offset(&self) -> usize" ["self.offset"] ++
    Code.spaced (Code.block "fn encoded_length(&self) -> usize"
      ["self.cursor.limit() - self.offset"])) ++
  interface "MessageFlyweight"
    (number "sbe_block_length" "BLOCK_LENGTH" ++
    number "sbe_template_id" "TEMPLATE_ID" ++
    number "sbe_schema_id" "SCHEMA_ID" ++
    number "sbe_schema_version" "SCHEMA_VERSION" ++
    Code.block "fn sbe_semantic_type(&self) -> &'static str" ["Self::SEMANTIC_TYPE"] ++
    Code.spaced (Code.block "fn limit(&self) -> usize" ["self.cursor.limit()"]) ++
    Code.spaced (Code.block "fn set_limit(&mut self, limit: usize)"
      ["self.cursor.set_limit(limit);"])) ++
  interface ("Message" ++ side.suffix ++ "Flyweight<" ++ side.buffer ++ "<'a>>")
    (match side with
    | .decoder =>
      Code.block
        ("fn wrap(buffer: ReadBuf<'a>, offset: usize, acting_block_length: usize, " ++
          "acting_version: u64) -> Self")
        [typeName ++ "::wrap(buffer, offset, acting_block_length as _, acting_version as _)"]
    | .encoder =>
      Code.block "fn wrap(buffer: WriteBuf<'a>, offset: usize) -> Self"
        [typeName ++ "::wrap(buffer, offset)"])

/-- The unit of one side of a message, given the name of the header, the first token and all
tokens. -/
def messageUnit (settings : Settings) (schema : Schema) (header : String) (first : Token)
    (tokens : List Token) (side : Side) : Result Code := do
  let body ← Layout.decomposeMessage tokens
  let path := Name.codecName first.name ""
  let typeName := codecName first.name side
  let types ← headerTypes schema
  let blockLength ←
    literal types.blockLength (.uint first.encodedLength) HeaderField.blockLength.name
  let templateId ← literal types.templateId (.int first.id.toInt64) HeaderField.templateId.name
  let schemaLines ← schemaConstants schema
  let members ← bodyMembers settings body path side
  let groups ← groupTypes settings body path side
  let semanticType := first.encoding.semanticType.getD ""
  pure <| prelude settings ++ messageStructure types typeName side ++
    Code.spaced (Code.block ("impl<'a> " ++ typeName ++ "<'a>")
      ([Code.constant "BLOCK_LENGTH" types.blockLength.sourceType blockLength,
        Code.constant "TEMPLATE_ID" types.templateId.sourceType templateId] ++
      schemaLines ++
      [Code.constant "SEMANTIC_TYPE" "&'static str" (Text.quote semanticType)] ++
      (match side with
        | .decoder => messageReads types
        | .encoder => messageWrites (codecName header .encoder)) ++
      side.bufferFunction ++
      Code.function "offset(&self) -> usize" ["self.offset"] ++
      actingFunctions side "acting_block_length" types.blockLength ++
      Code.function "encoded_length(&self) -> usize" ["self.cursor.limit() - self.offset"] ++
      limitFunctions ++ members ++
      match side with
      | .decoder => messageRender first.name
      | .encoder => [])) ++
    messageDisplay first.name side ++ groups ++
    if settings.generateInterfaces then messageInterfaces settings typeName side else []

end Sbe.Source
