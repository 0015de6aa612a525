import Sbe.Source.Enumeration
import Sbe.Source.View

/-!
**Units of bit sets.**

A set is an unsigned number with one bit for each choice. Both sides read the number; a decoder
tests the bits and an encoder changes them.
-/

namespace Sbe.Source

/-- A choice of a set: its accessor, its name in the schema and its bit. -/
structure Choice where
  accessor : String
  schemaName : String
  bit : Int
deriving DecidableEq

/-- The choice that a token of a set describes. -/
def choice (settings : Settings) (primitive : Primitive) (token : Token) : Result Choice := do
  let bit ← .ofOption (.missingConstant token.name) (token.encoding.constant.bind Scalar.toInt?)
  if bit < 0 ∨ primitive.size * 8 ≤ lowWord bit then
    .refuse (.choiceBit token.name (lowWord bit) primitive)
  pure ⟨← settings.propertyName token.name, token.name, bit⟩

/-- The mask of a choice. -/
def Choice.mask (choice : Choice) (sourceType : String) : String :=
  "(1" ++ sourceType ++ " << " ++ toString choice.bit ++ ")"

/-- The functions that read a choice. -/
def choiceTest (sourceType : String) (choice : Choice) : Code :=
  Code.function (choice.accessor ++ "(&self) -> bool")
    ["Self::test_" ++ choice.accessor ++ "(self.raw_value())"] ++
  Code.constantFunction ("test_" ++ choice.accessor ++ "(value: " ++ sourceType ++ ") -> bool")
    ["0 != (value & " ++ choice.mask sourceType ++ ")"]

/-- The functions that change a choice. -/
def choiceChange (primitive : Primitive) (order : ByteOrder) (choice : Choice) : Code :=
  let sourceType := primitive.sourceType
  Code.function ("set_" ++ choice.accessor ++ "(&mut self, value: bool) -> &mut Self")
    ["let bits = Self::apply_" ++ choice.accessor ++ "(self.raw_value(), value);",
      writeAt primitive "self.buffer" "self.offset" "bits" order,
      "self"] ++
  Code.constantFunction
    ("apply_" ++ choice.accessor ++ "(bits: " ++ sourceType ++ ", value: bool) -> " ++ sourceType)
    ["if value \x7b",
      "    bits | " ++ choice.mask sourceType,
      "\x7d else \x7b",
      "    bits & !" ++ choice.mask sourceType,
      "\x7d"]

/-- The function that shows the choices that are set. -/
def setRender (choices : List Choice) : Code :=
  Code.function "render<W: fmt::Write>(&self, out: &mut W) -> fmt::Result" <|
    ["out.write_char('\x7b')?;", "let mut at_least_one = false;"] ++
    (choices.flatMap fun choice =>
      Code.block ("if self." ++ choice.accessor ++ "()") <|
        Code.block "if at_least_one" ["out.write_char(',')?;"] ++
        ["out.write_str(" ++ Text.quote choice.schemaName ++ ")?;", "at_least_one = true;"]) ++
    ["out.write_char('\x7d')"]

/-- The members of a set. -/
def setMembers (primitive : Primitive) (order : ByteOrder) (choices : List Choice)
    (side : Side) : Code :=
  Code.function ("raw_value(&self) -> " ++ primitive.sourceType)
    [readAt primitive "self.buffer" "self.offset" order] ++
  match side with
  | .decoder => choices.flatMap (choiceTest primitive.sourceType) ++ setRender choices
  | .encoder =>
    Code.function "clear(&mut self) -> &mut Self"
      [writeAt primitive "self.buffer" "self.offset" "0" order, "self"] ++
    choices.flatMap (choiceChange primitive order)

/-- The unit of one side of a set, given its first token and all its tokens. -/
def setUnit (settings : Settings) (schema : Schema) (first : Token) (tokens : List Token)
    (side : Side) : Result Code := do
  let primitive ← first.primitive
  if !primitive.isUnsigned then .refuse (.unsupportedPrimitive first.name primitive)
  let choices ← (inner tokens).mapM (choice settings primitive)
  let schemaLines ← schemaConstants schema
  pure <| view settings schemaLines first side
    (setMembers primitive first.encoding.byteOrder choices side)

end Sbe.Source
