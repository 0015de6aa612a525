import Sbe.Source.Property

/-!
**Accessors of properties.**

Every property gets constants for its place and bounds, and functions to read and, on encoders, to
write it. Reads of decoders are guarded where an older message lacks the property.
-/

namespace Sbe.Source

open Sbe.Text (Charset)

/-- The constants of a property's place, and the attributes of a field. -/
def propertyConstants (settings : Settings) (property : Property) : Result Code := do
  let upper := Name.upperSnakeCase property.name
  let place : Code :=
    [Code.constant (upper ++ "_ENCODING_OFFSET") "usize" (toString property.first.offset.toNat),
      Code.constant (upper ++ "_ENCODING_LENGTH") "usize"
        (toString property.first.encodedLength.toNat)]
  match property.field with
  | none => pure (Code.spaced place)
  | some field =>
    let accessor ← settings.propertyName property.name
    pure <| Code.spaced
      (Code.constant (upper ++ "_ID") "i32" (toString field.id.toInt) ::
        Code.constant (upper ++ "_SINCE_VERSION") "u32" (toString field.version.toNat) ::
        place) ++ metaAttributes accessor field

/-! ### Arrays -/

/-- The test of an index into an array. -/
def indexTest (name upper : String) : Code :=
  Code.block ("if index >= Self::" ++ upper ++ "_LENGTH")
    ["return Err(CodecError::IndexOutOfRange " ++
      Code.braced
        ("field: " ++ Text.quote name ++ ", index, length: Self::" ++ upper ++ "_LENGTH") ++
      ");"]

/-- The functions of a character array that read it as a whole. -/
def charArrayReads (property : Property) (accessor upper base : String) (guarded : Bool) : Code :=
  let length := "Self::" ++ upper ++ "_LENGTH"
  Code.function ("get_" ++ accessor ++ "(&self, dst: &mut [u8]) -> Result<usize, CodecError>")
    (Code.block ("if dst.len() < " ++ length)
      ["return Err(CodecError::DestinationTooSmall " ++
        Code.braced ("field: " ++ Text.quote property.name ++ ", required: " ++ length ++
          ", available: dst.len()") ++ ");"] ++
    guardIf guarded property.since "Ok(0)" ++
    ["self.buffer.get_bytes(" ++ base ++ ", &mut dst[.." ++ length ++ "]);",
      "Ok(" ++ length ++ ")"]) ++
  Code.function (accessor ++ "(&self) -> String")
    (guardIf guarded property.since "String::new()" ++
    ["let bytes = self.buffer.slice(" ++ base ++ ", " ++ length ++ ");",
      "text::decode(&bytes[..text::nul_terminated_len(bytes)], Self::" ++ upper ++
        "_CHARACTER_ENCODING)"])

/-- The functions of a character array that write it as a whole, padded with zeros. -/
def charArrayWrites (accessor upper base : String) : Code :=
  let length := "Self::" ++ upper ++ "_LENGTH"
  Code.function ("put_" ++ accessor ++ "(&mut self, src: &[u8]) -> &mut Self")
    ["let length = src.len().min(" ++ length ++ ");",
      "self.buffer.put_bytes(" ++ base ++ ", &src[..length]);",
      "self.buffer.set_memory(" ++ base ++ " + length, " ++ length ++ " - length, 0);",
      "self"] ++
  Code.function ("set_" ++ accessor ++ "(&mut self, value: &str) -> Result<&mut Self, CodecError>")
    ["let bytes = text::encode(value, Self::" ++ upper ++ "_CHARACTER_ENCODING)?;",
      "Ok(self.put_" ++ accessor ++ "(&bytes))"]

/-- The functions of an array: element by element, and as a whole where the elements are
characters. -/
def arrayAccessors (property : Property) (primitive : Primitive) (accessor : String) (side : Side)
    (guarded : Bool) : Result Code := do
  let upper := Name.upperSnakeCase property.name
  let order := property.first.encoding.byteOrder
  let base := offsetFrom "self.offset" property.first.offset
  let element := base ++ " + index" ++
    if primitive.size = 1 then "" else " * " ++ toString primitive.size
  let elements : Code :=
    Code.constant (upper ++ "_LENGTH") "usize" (toString property.first.arrayLength) ::
    Code.function (accessor ++ "_at(&self, index: usize) -> Result<" ++ primitive.sourceType ++
        ", CodecError>")
      (indexTest property.name upper ++
      guardIf guarded property.since ("Ok(Self::" ++ upper ++ "_NULL_VALUE)") ++
      ["Ok(" ++ readAt primitive "self.buffer" element order ++ ")"]) ++
    match side with
    | .decoder => []
    | .encoder =>
      Code.function ("set_" ++ accessor ++ "_at(&mut self, index: usize, value: " ++
          primitive.sourceType ++ ") -> Result<&mut Self, CodecError>")
        (indexTest property.name upper ++
        [writeAt primitive "self.buffer" element "value" order, "Ok(self)"])
  if primitive ≠ .char then pure elements
  else
    let set ← charset property.first
    pure <| elements ++
      Code.spaced [Code.constant (upper ++ "_CHARACTER_ENCODING") "CharacterEncoding"
        (charsetPath set)] ++
      match side with
      | .decoder => charArrayReads property accessor upper base guarded
      | .encoder => charArrayWrites accessor upper base

/-! ### Constants -/

/-- The constants and functions of a text that the schema fixes. -/
def constantText (property : Property) (value : String) (accessor : String) (side : Side) :
    Result Code := do
  let upper := Name.upperSnakeCase property.name
  let set ← charset property.first
  match set.encode value with
  | .error _ => .refuse (.outOfRange property.name value .char)
  | .ok bytes =>
    let constants : Code :=
      [Code.constant (upper ++ "_VALUE") "&'static [u8]" ("&" ++ byteList bytes),
        Code.constant (upper ++ "_LENGTH") "usize" (toString bytes.length)]
    match side with
    | .encoder => pure constants
    | .decoder =>
      pure <| constants ++
        Code.function (accessor ++ "_at(&self, index: usize) -> Result<u8, CodecError>")
          ["Self::" ++ upper ++ "_VALUE.get(index).copied().ok_or(CodecError::IndexOutOfRange \x7b",
            "    field: " ++ Text.quote property.name ++ ",",
            "    index,",
            "    length: Self::" ++ upper ++ "_LENGTH,",
            "\x7d)"] ++
        Code.function ("get_" ++ accessor ++ "(&self, dst: &mut [u8]) -> usize")
          ["let length = dst.len().min(Self::" ++ upper ++ "_LENGTH);",
            "dst[..length].copy_from_slice(&Self::" ++ upper ++ "_VALUE[..length]);",
            "length"] ++
        Code.function (accessor ++ "(&self) -> &'static str") [Text.quote value]

/-- The constants and functions of a value that the schema fixes. -/
def constantAccessors (settings : Settings) (property : Property) (primitive : Primitive)
    (side : Side) : Result Code := do
  let accessor ← settings.propertyName property.name
  let value ← .ofOption (.missingConstant property.name) property.constant?
  match primitive, value with
  | .char, .text content => constantText property content accessor side
  | _, _ =>
    let upper := Name.upperSnakeCase property.name
    let shown ← literal primitive value property.name
    pure <| Code.constant (upper ++ "_VALUE") primitive.sourceType shown ::
      match side with
      | .decoder =>
        Code.function (accessor ++ "(&self) -> " ++ primitive.sourceType)
          ["Self::" ++ upper ++ "_VALUE"]
      | .encoder => []

/-! ### Single values -/

/-- The constants and functions of a property of a primitive type. -/
def primitiveAccessors (settings : Settings) (property : Property) (side : Side) (scope : Scope) :
    Result Code := do
  let token := property.first
  let primitive ← token.primitive
  if property.isConstant then constantAccessors settings property primitive side
  else
    let accessor ← settings.propertyName property.name
    let upper := Name.upperSnakeCase property.name
    let sourceType := primitive.sourceType
    let encoding := token.encoding
    let null ← literal primitive (encoding.null?.getD primitive.null) property.name
    let least ← literal primitive (encoding.least?.getD primitive.least) property.name
    let greatest ← literal primitive (encoding.greatest?.getD primitive.greatest) property.name
    let bounds : Code :=
      [Code.constant (upper ++ "_NULL_VALUE") sourceType null,
        Code.constant (upper ++ "_MIN_VALUE") sourceType least,
        Code.constant (upper ++ "_MAX_VALUE") sourceType greatest]
    let guarded := property.isGuarded side scope
    if 1 < token.arrayLength then do
      pure (bounds ++ (← arrayAccessors property primitive accessor side guarded))
    else
      let base := offsetFrom "self.offset" token.offset
      pure <| bounds ++
        Code.function (accessor ++ "(&self) -> " ++ sourceType)
          (guardIf guarded property.since ("Self::" ++ upper ++ "_NULL_VALUE") ++
          [readAt primitive "self.buffer" base encoding.byteOrder]) ++
        match side with
        | .decoder => []
        | .encoder =>
          Code.function
            ("set_" ++ accessor ++ "(&mut self, value: " ++ sourceType ++ ") -> &mut Self")
            [writeAt primitive "self.buffer" base "value" encoding.byteOrder, "self"]

/-! ### Enums, sets and composites -/

/-- The text after the last point, nothing without a point. -/
def afterLastPoint? (text : String) : Option String :=
  let characters := text.toList
  if characters.contains '.' then
    some (String.ofList (characters.reverse.takeWhile (· ≠ '.')).reverse)
  else none

/-- The variant that a constant enum names: by a qualified name, by its value, or by its plain
name. -/
def constantVariant (settings : Settings) (property : Property) : Result String := do
  let missing := SchemaError.missingConstant property.name
  let value ← .ofOption missing property.constant?
  let byValue := (property.first :: property.others).find? fun token =>
    token.signal == .validValue && (token.encoding.constant.map fun constant =>
      constant.same value).getD false
  let variant ← .ofOption missing <| (value.toText?.bind afterLastPoint?).or <|
    (byValue.map Token.name).or value.toText?
  settings.typeName variant

/-- The functions of a property of an enum type. -/
def enumAccessors (settings : Settings) (property : Property) (side : Side) (scope : Scope) :
    Result Code := do
  let token := property.first
  let accessor ← settings.propertyName property.name
  let enumName ← settings.typeName token.typeName
  if property.isConstant then
    match side with
    | .encoder => pure []
    | .decoder =>
      let variant ← constantVariant settings property
      pure (Code.function (accessor ++ "(&self) -> " ++ enumName) [enumName ++ "::" ++ variant])
  else
    let primitive ← token.primitive
    let order := token.encoding.byteOrder
    let base := offsetFrom "self.offset" token.offset
    pure <| Code.function (accessor ++ "_raw(&self) -> " ++ primitive.sourceType)
        (guardIf (property.isGuarded side scope) property.since (enumName ++ "::NULL_VALUE") ++
        [readAt primitive "self.buffer" base order]) ++
      match side with
      | .decoder =>
        let returned :=
          if settings.decodeUnknownEnumValues then enumName
          else "Result<" ++ enumName ++ ", CodecError>"
        Code.function (accessor ++ "(&self) -> " ++ returned)
          [enumName ++ "::get(self." ++ accessor ++ "_raw())"]
      | .encoder =>
        Code.function ("set_" ++ accessor ++ "(&mut self, value: " ++ enumName ++ ") -> &mut Self")
          [writeAt primitive "self.buffer" base "value.value()" order, "self"]

/-- The function that binds the view of a set or composite at its place. -/
def viewAccessors (settings : Settings) (property : Property) (side : Side) (scope : Scope) :
    Result Code := do
  let accessor ← settings.propertyName property.name
  let codec := codecName property.first.typeName side
  let base := offsetFrom "self.offset" property.first.offset
  pure <|
    match side with
    | .decoder =>
      let bound := codec ++ "::wrap(self.buffer, " ++ base ++ ")"
      if property.isGuarded side scope then
        Code.function (accessor ++ "(&self) -> Option<" ++ codec ++ "<'a>>")
          (guard property.since "None" ++ ["Some(" ++ bound ++ ")"])
      else Code.function (accessor ++ "(&self) -> " ++ codec ++ "<'a>") [bound]
    | .encoder =>
      Code.function (accessor ++ "(&mut self) -> " ++ codec ++ "<'_>")
        [codec ++ "::wrap(self.buffer.reborrow(), " ++ base ++ ")"]

/-- All constants and functions of a property. -/
def accessors (settings : Settings) (side : Side) (scope : Scope) (property : Property) :
    Result Code := do
  let constants ← propertyConstants settings property
  let functions ←
    match property.first.signal with
    | .encoding => primitiveAccessors settings property side scope
    | .beginEnum => enumAccessors settings property side scope
    | .beginSet | .beginComposite => viewAccessors settings property side scope
    | _ => .refuse (Layout.misplaced .encoding property.first)
  pure (constants ++ functions)

end Sbe.Source
