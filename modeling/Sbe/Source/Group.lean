import Sbe.Source.Accessor
import Sbe.Source.Render
import Sbe.Source.VarData

/-!
**Bodies and repeating groups.**

A body gets the accessors of its fields, its groups and its fields of variable length. Each group is
a type of its own that shares the cursor of its message, named by the path of its parents; the types
of nested groups follow the type they are nested in.
-/

namespace Sbe.Source

/-- The name of the type of a group. -/
def groupName (path : String) (group : Token) (side : Side) : String :=
  path ++ codecName group.name side

/-- The path of the groups inside a group. -/
def groupPath (path : String) (group : Token) : String := path ++ Name.codecName group.name ""

/-- The constants and the function that open a group from its parent. -/
def groupAccessors (settings : Settings) (path : String) (side : Side) (layout : GroupLayout) :
    Result Code := do
  let token := layout.group
  let accessor ← settings.propertyName token.name
  let upper := Name.upperSnakeCase token.name
  let typeName := groupName path token side
  let constants := Code.spaced
    [Code.constant (upper ++ "_ID") "i32" (toString token.id.toInt),
      Code.constant (upper ++ "_SINCE_VERSION") "u32" (toString token.version.toNat)]
  match side with
  | .decoder =>
    pure <| constants ++ Code.function (accessor ++ "(&mut self) -> " ++ typeName ++ "<'_>")
      (guardIf (decide (0 < token.version)) token.version
        (typeName ++ "::wrap_empty(self.buffer, &mut self.cursor)") ++
      [typeName ++ "::wrap(self.buffer, &mut self.cursor)"])
  | .encoder =>
    let count ← layout.numInGroup.primitive
    pure <| constants ++ Code.function
      (accessor ++ "_count(&mut self, count: " ++ count.sourceType ++ ") -> Result<" ++ typeName ++
        "<'_>, CodecError>")
      [typeName ++ "::wrap(self.buffer.reborrow(), &mut self.cursor, count)"]

/-- The accessors of everything in a body, and on decoders the function that shows it. -/
def bodyMembers (settings : Settings) (body : Body) (path : String) (side : Side) :
    Result Code := do
  let layouts ← Layout.splitFields 0 body.fields
  let fields ← layouts.mapM fun layout => do
    let property ← Property.ofField layout
    pure (property, ← accessors settings side .body property)
  let groups ← Layout.splitGroups 0 body.groups
  let groupCode ← groups.mapM (groupAccessors settings path side)
  let varData ← Layout.splitVarData 0 body.varData
  let varDataCode ← varData.mapM (varDataAccessors settings side)
  let render ←
    match side with
    | .decoder => bodyRender settings (fields.map Prod.fst) groups varData
    | .encoder => pure []
  pure ((fields.map Prod.snd).flatten ++ groupCode.flatten ++ varDataCode.flatten ++ render)

/-! ### The type of a group -/

/-- The structure of a group. -/
def groupStructure (typeName : String) (blockLength : Primitive) (side : Side) : Code :=
  Code.spaced <| "#[derive(Debug)]" :: Code.block ("pub struct " ++ typeName ++ "<'a>")
    (["buffer: " ++ side.buffer ++ "<'a>,", "cursor: &'a mut Cursor,"] ++
    (match side with
      | .decoder => ["block_length: " ++ blockLength.sourceType ++ ","]
      | .encoder => []) ++
    ["count: usize,", "index: isize,", "offset: usize,"])

/-- The functions that open a group for reading. -/
def groupReads (layout : GroupLayout) (blockLength numInGroup : Primitive) : Code :=
  let blockLengthAt := offsetFrom "limit" layout.blockLength.offset
  let numInGroupAt := offsetFrom "limit" layout.numInGroup.offset
  Code.spaced ("/// Reads the dimension header at the current limit and steps past it." ::
    Code.block "pub fn wrap(buffer: ReadBuf<'a>, cursor: &'a mut Cursor) -> Self"
      ["let limit = cursor.limit();",
        "let block_length = " ++
          readAt blockLength "buffer" blockLengthAt layout.blockLength.encoding.byteOrder ++ ";",
        "let count = " ++
          readAt numInGroup "buffer" numInGroupAt layout.numInGroup.encoding.byteOrder ++
          " as usize;",
        "cursor.set_limit(limit + Self::SBE_HEADER_SIZE);",
        "Self " ++ Code.braced "buffer, cursor, block_length, count, index: -1, offset: 0"]) ++
  Code.spaced ("/// A group with no repetitions, for messages older than the group." ::
    Code.block "pub fn wrap_empty(buffer: ReadBuf<'a>, cursor: &'a mut Cursor) -> Self"
      ["Self " ++ Code.braced
        "buffer, cursor, block_length: Self::SBE_BLOCK_LENGTH, count: 0, index: -1, offset: 0"])

/-- The constants and the function that open a group for writing. -/
def groupWrites (layout : GroupLayout) (blockLength numInGroup : Primitive) : Result Code := do
  let blockLengthAt := offsetFrom "limit" layout.blockLength.offset
  let numInGroupAt := offsetFrom "limit" layout.numInGroup.offset
  let count := numInGroup.sourceType
  let encoding := layout.numInGroup.encoding
  let least ← literal numInGroup (encoding.least?.getD numInGroup.least) layout.numInGroup.name
  let greatest ←
    literal numInGroup (encoding.greatest?.getD numInGroup.greatest) layout.numInGroup.name
  pure <| [Code.constant "SBE_MIN_COUNT" count least,
    Code.constant "SBE_MAX_COUNT" count greatest] ++
    Code.spaced (["/// Checks `count` against the inclusive bounds, then writes the dimension",
        "/// header at the current limit and steps past it."] ++
      Code.block
        ("pub fn wrap(mut buffer: WriteBuf<'a>, cursor: &'a mut Cursor, count: " ++ count ++
          ") -> Result<Self, CodecError>")
        (Code.block "if !(Self::SBE_MIN_COUNT..=Self::SBE_MAX_COUNT).contains(&count)"
          ["return Err(CodecError::CountOutOfRange \x7b",
            "    group: " ++ Text.quote layout.group.name ++ ",",
            "    count: count as u64,",
            "    min: Self::SBE_MIN_COUNT as u64,",
            "    max: Self::SBE_MAX_COUNT as u64,",
            "\x7d);"] ++
        ["let limit = cursor.limit();",
          writeAt blockLength "buffer" blockLengthAt "Self::SBE_BLOCK_LENGTH"
            layout.blockLength.encoding.byteOrder,
          writeAt numInGroup "buffer" numInGroupAt "count" encoding.byteOrder,
          "cursor.set_limit(limit + Self::SBE_HEADER_SIZE);",
          "Ok(Self " ++ Code.braced "buffer, cursor, count: count as usize, index: -1, offset: 0" ++
            ")"]))

/-- The functions that tell what a decoder was opened with. -/
def actingFunctions (side : Side) (blockLengthField : String) (blockLength : Primitive) : Code :=
  match side with
  | .decoder =>
    Code.function ("acting_block_length(&self) -> " ++ blockLength.sourceType)
      ["self." ++ blockLengthField] ++
    Code.function "acting_version(&self) -> u64" ["self.cursor.acting_version()"]
  | .encoder => []

/-- The functions that read and set the limit. -/
def limitFunctions : Code :=
  Code.function "limit(&self) -> usize" ["self.cursor.limit()"] ++
  Code.function "set_limit(&mut self, limit: usize)" ["self.cursor.set_limit(limit);"]

/-- The functions that step through the repetitions of a group. -/
def iteration (name : String) (side : Side) : Code :=
  let repetition :=
    match side with
    | .decoder => "self.block_length as usize"
    | .encoder => "Self::SBE_BLOCK_LENGTH as usize"
  Code.function "has_next(&self) -> bool" ["self.index + 1 < self.count as isize"] ++
  Code.spaced (["/// Moves to the next repetition. The returned view is the group itself,",
      "/// so it cannot outlive the following call."] ++
    Code.block "pub fn next(&mut self) -> Result<&mut Self, CodecError>"
      (Code.block "if !self.has_next()"
        ["return Err(CodecError::GroupExhausted " ++
          Code.braced ("group: " ++ Text.quote name ++ ", count: self.count") ++ ");"] ++
      ["self.offset = self.cursor.limit();",
        "self.cursor.set_limit(self.offset + " ++ repetition ++ ");",
        "self.index += 1;",
        "Ok(self)"])) ++
  match side with
  | .encoder => []
  | .decoder =>
    Code.spaced
      (["/// Calls `f` on every remaining repetition, stopping at the first error.",
        "pub fn try_for_each<F>(&mut self, mut f: F) -> Result<(), CodecError>",
        "where",
        "    F: FnMut(&mut Self) -> Result<(), CodecError>,",
        "\x7b"] ++
      Code.indent (Code.block "while self.has_next()" ["f(self.next()?)?;"] ++ ["Ok(())"]) ++
      ["\x7d"])

/-- The type of a group, without the types of the groups inside it. -/
def groupType (settings : Settings) (layout : GroupLayout) (path : String) (side : Side) :
    Result Code := do
  let token := layout.group
  let typeName := groupName path token side
  let blockLength ← layout.blockLength.primitive
  let numInGroup ← layout.numInGroup.primitive
  let length ← literal blockLength (.uint token.encodedLength) layout.blockLength.name
  let opening ←
    match side with
    | .decoder => pure (groupReads layout blockLength numInGroup)
    | .encoder => groupWrites layout blockLength numInGroup
  let members ← bodyMembers settings layout.body (groupPath path token) side
  pure <| groupStructure typeName blockLength side ++
    Code.spaced (Code.block ("impl<'a> " ++ typeName ++ "<'a>")
      ([Code.constant "SBE_HEADER_SIZE" "usize" (toString layout.dimensions.encodedLength.toNat),
        Code.constant "SBE_BLOCK_LENGTH" blockLength.sourceType length] ++
      opening ++ side.bufferFunction ++
      Code.function "offset(&self) -> usize" ["self.offset"] ++
      actingFunctions side "block_length" blockLength ++
      Code.function "count(&self) -> usize" ["self.count"] ++
      Code.spaced ("/// Position of the current repetition, -1 before the first `next`." ::
        Code.block "pub fn index(&self) -> isize" ["self.index"]) ++
      limitFunctions ++ iteration token.name side ++ members ++
      match side with
      | .decoder => groupRender
      | .encoder => []))

/-- The types of all groups of a body, at every depth. -/
def groupTypes (settings : Settings) (body : Body) (path : String) (side : Side) :
    Result Code := do
  let layouts ← Layout.groups body
  let types ← layouts.mapM fun ⟨layout, _⟩ => do
    let type ← groupType settings layout path side
    let nested ← groupTypes settings layout.body (groupPath path layout.group) side
    pure (type ++ nested)
  pure types.flatten
termination_by body.size

end Sbe.Source
