import Sbe.Source.Property

/-!
**Functions that show codecs as text.**

Every property on the wire is an entry `name=value`; entries are separated by bars. Groups list
their repetitions in brackets, and a message opens with the numbers that identify it.
-/

namespace Sbe.Source

/-- The line that writes the start of an entry. -/
def entryName (name : String) : String :=
  "out.write_str(" ++ Text.quote (name ++ "=") ++ ")?;"

/-- A line that writes the value of an expression. -/
def writeValue (value : String) : String := "write!(out, \"\x7b\x7d\", " ++ value ++ ")?;"

/-- The lines that write the value of a property. -/
def entryValue (settings : Settings) (property : Property) (scope : Scope) (accessor : String) :
    Code :=
  let token := property.first
  let single := token.arrayLength == 1
  let character := token.encoding.primitive == some .char
  match token.signal with
  | .encoding =>
    if single && character then [writeValue ("self." ++ accessor ++ "() as char")]
    else if single then [writeValue ("self." ++ accessor ++ "()")]
    else if character then ["out.write_str(&self." ++ accessor ++ "())?;"]
    else
      ["out.write_char('[')?;"] ++
      Code.block ("for index in 0..Self::" ++ Name.upperSnakeCase property.name ++ "_LENGTH")
        (Code.block "if index > 0" ["out.write_char(',')?;"] ++
        [writeValue ("self." ++ accessor ++ "_at(index).map_err(|_| fmt::Error)?")]) ++
      ["out.write_char(']')?;"]
  | .beginEnum =>
    if settings.decodeUnknownEnumValues then [writeValue ("self." ++ accessor ++ "()")]
    else
      Code.block ("match self." ++ accessor ++ "()")
        ["Ok(value) => write!(out, \"\x7b\x7d\", value)?,",
          "Err(_) => write!(out, \"\x7b\x7d\", self." ++ accessor ++ "_raw())?,"]
  | _ =>
    if property.isGuarded .decoder scope then
      Code.block ("if let Some(value) = self." ++ accessor ++ "()") ["value.render(out)?;"]
    else ["self." ++ accessor ++ "().render(out)?;"]

/-- The entry of a property, nothing when it is not shown. -/
def propertyEntry (settings : Settings) (scope : Scope) (property : Property) :
    Result (Option Code) := do
  if property.isShown then
    let accessor ← settings.propertyName property.name
    pure (some (entryName property.name :: entryValue settings property scope accessor))
  else pure none

/-- The entry of a group. -/
def groupEntry (settings : Settings) (layout : GroupLayout) : Result Code := do
  let name := layout.group.name
  let accessor ← settings.propertyName name
  pure <| ["out.write_str(" ++ Text.quote (name ++ "=[") ++ ")?;", "\x7b"] ++
    Code.indent (("let mut group = self." ++ accessor ++ "();") ::
      Code.block "while group.has_next()"
        (Code.block "if group.index() >= 0" ["out.write_char(',')?;"] ++
        ["group.next().map_err(|_| fmt::Error)?.render(out)?;"])) ++
    ["\x7d", "out.write_char(']')?;"]

/-- The entry of a field of variable length: its text, or the number of its bytes. -/
def varDataEntry (settings : Settings) (layout : VarDataLayout) : Result Code := do
  let name := layout.varData.name
  let accessor ← settings.propertyName name
  let value :=
    if layout.data.encoding.charset.isSome then "out.write_str(&self." ++ accessor ++ "())?;"
    else "write!(out, \"\x7b\x7d raw bytes\", self.skip_" ++ accessor ++ "())?;"
  pure [entryName name, value]

/-- Entries separated by bars. -/
def joinEntries (entries : List Code) : Code :=
  (entries.intersperse ["out.write_char('|')?;"]).flatten

/-- The function that shows a composite. -/
def compositeRender (settings : Settings) (properties : List Property) : Result Code := do
  let entries ← properties.mapM (propertyEntry settings .composite)
  pure <| Code.function "render<W: fmt::Write>(&self, out: &mut W) -> fmt::Result" <|
    ["out.write_char('(')?;"] ++ joinEntries (entries.filterMap id) ++ ["out.write_char(')')"]

/-- The function that shows the entries of a body. -/
def bodyRender (settings : Settings) (fields : List Property) (groups : List GroupLayout)
    (varData : List VarDataLayout) : Result Code := do
  let fieldEntries ← fields.mapM (propertyEntry settings .body)
  let groupEntries ← groups.mapM (groupEntry settings)
  let varDataEntries ← varData.mapM (varDataEntry settings)
  pure <| Code.spaced <|
    Code.block "fn render_fields<W: fmt::Write>(&mut self, out: &mut W) -> fmt::Result" <|
      joinEntries (fieldEntries.filterMap id ++ groupEntries ++ varDataEntries) ++ ["Ok(())"]

/-- A number of the message, after the number it was read under where the two differ. -/
def renderNumber (actual expected : String) (differ : String) : Code :=
  Code.block ("if " ++ differ) ["write!(out, \"\x7b\x7d/\", " ++ actual ++ ")?;"] ++
    [writeValue expected]

/-- The functions that show a message; the limit is rewound to the end of the fixed block for it. -/
def messageRender (name : String) : Code :=
  Code.function "render<W: fmt::Write>(&mut self, out: &mut W) -> fmt::Result"
    ["let original_limit = self.limit();",
      "self.set_limit(self.offset + self.acting_block_length as usize);",
      "let result = self.render_body(out);",
      "self.set_limit(original_limit);",
      "result"] ++
  Code.spaced (Code.block "fn render_body<W: fmt::Write>(&mut self, out: &mut W) -> fmt::Result"
    (["out.write_str(" ++ Text.quote ("[" ++ name ++ "](sbeTemplateId=") ++ ")?;",
      writeValue "Self::TEMPLATE_ID",
      "out.write_str(\"|sbeSchemaId=\")?;",
      writeValue "Self::SCHEMA_ID",
      "out.write_str(\"|sbeSchemaVersion=\")?;"] ++
    renderNumber "self.acting_version()" "Self::SCHEMA_VERSION"
      "self.acting_version() != Self::SCHEMA_VERSION as u64" ++
    ["out.write_str(\"|sbeBlockLength=\")?;"] ++
    renderNumber "self.acting_block_length" "Self::BLOCK_LENGTH"
      "self.acting_block_length != Self::BLOCK_LENGTH" ++
    ["out.write_str(\"):\")?;", "self.render_fields(out)"]))

/-- The function that shows one repetition of a group. -/
def groupRender : Code :=
  Code.function "render<W: fmt::Write>(&mut self, out: &mut W) -> fmt::Result"
    ["out.write_char('(')?;", "self.render_fields(out)?;", "out.write_char(')')"]

end Sbe.Source
