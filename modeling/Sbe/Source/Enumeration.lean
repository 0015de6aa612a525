import Sbe.Source.Side

/-!
**Units of enums.**

An enum has one variant for each of its values, one for the null value, and one for unknown values
when the settings ask for it; without that one, an unknown value is an error.
-/

namespace Sbe.Source

/-- The tokens strictly between the first and the last. -/
def inner (tokens : List Token) : List Token := tokens.tail.dropLast

/-- A value of an enum: its variant, its name in the schema and its literal. -/
structure EnumValue where
  variant : String
  schemaName : String
  literal : String
deriving DecidableEq

/-- The value that a token of an enum describes. -/
def enumValue (settings : Settings) (primitive : Primitive) (token : Token) : Result EnumValue := do
  let constant ← .ofOption (.missingConstant token.name) token.encoding.constant
  let variant ← settings.typeName token.name
  pure ⟨variant, token.name, ← literal primitive constant token.name⟩

/-- The function from variants to values. -/
def enumToValue (unknown : Bool) (name sourceType : String) (values : List EnumValue) : Code :=
  Code.constantFunction ("value(self) -> " ++ sourceType) <| Code.block "match self" <|
    (values.map fun value => name ++ "::" ++ value.variant ++ " => " ++ value.literal ++ ",") ++
    (if unknown then [name ++ "::SbeUnknown => Self::NULL_VALUE,"] else []) ++
    [name ++ "::NullVal => Self::NULL_VALUE,"]

/-- The function from values to variants. -/
def enumOfValue (unknown : Bool) (name sourceType : String) (values : List EnumValue) : Code :=
  if unknown then
    Code.function ("get(value: " ++ sourceType ++ ") -> Self") <| Code.block "match value" <|
      (values.map fun value => value.literal ++ " => " ++ name ++ "::" ++ value.variant ++ ",") ++
      ["Self::NULL_VALUE => " ++ name ++ "::NullVal,", "_ => " ++ name ++ "::SbeUnknown,"]
  else
    Code.function ("get(value: " ++ sourceType ++ ") -> Result<Self, CodecError>") <|
      Code.block "match value" <|
        (values.map fun value =>
          value.literal ++ " => Ok(" ++ name ++ "::" ++ value.variant ++ "),") ++
        ["Self::NULL_VALUE => Ok(" ++ name ++ "::NullVal),",
          "_ => Err(CodecError::UnknownEnumValue " ++
            Code.braced ("type_name: " ++ Text.quote name ++ ", value: value as i64") ++ "),"]

/-- The function from variants to their names in the schema. -/
def enumToText (unknown : Bool) (name : String) (values : List EnumValue) : Code :=
  Code.function "as_str(self) -> &'static str" <| Code.block "match self" <|
    (values.map fun value =>
      name ++ "::" ++ value.variant ++ " => " ++ Text.quote value.schemaName ++ ",") ++
    (if unknown then [name ++ "::SbeUnknown => \"SBE_UNKNOWN\","] else []) ++
    [name ++ "::NullVal => \"NULL_VAL\","]

/-- The unit of an enum, given its first token and all its tokens. -/
def enumUnit (settings : Settings) (first : Token) (tokens : List Token) : Result Code := do
  let name ← settings.typeName first.typeName
  let primitive ← first.primitive
  if primitive.isFloat then .refuse (.unsupportedPrimitive first.name primitive)
  let null ← literal primitive (first.encoding.null?.getD primitive.null) first.name
  let values ← (inner tokens).mapM (enumValue settings primitive)
  let unknown := settings.decodeUnknownEnumValues
  pure <| prelude settings ++
    Code.spaced ("#[derive(Debug, Clone, Copy, PartialEq, Eq, Hash)]" ::
      Code.block ("pub enum " ++ name)
        ((values.map fun value => value.variant ++ ",") ++
          (if unknown then ["SbeUnknown,"] else []) ++ ["NullVal,"])) ++
    Code.spaced (Code.block ("impl " ++ name)
      (Code.constant "NULL_VALUE" primitive.sourceType null ::
        enumToValue unknown name primitive.sourceType values ++
        enumOfValue unknown name primitive.sourceType values ++
        enumToText unknown name values)) ++
    display name ["f.write_str(self.as_str())"]

end Sbe.Source
