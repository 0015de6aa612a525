import Sbe.Source.Side

/-!
**Views of sets and composites.**

A set or a composite is a view: a buffer and an offset into it.
-/

namespace Sbe.Source

/-- The structure of a view. -/
def viewStructure (typeName : String) (side : Side) : Code :=
  Code.spaced <| side.derives :: Code.block ("pub struct " ++ typeName ++ "<'a>")
    ["buffer: " ++ side.buffer ++ "<'a>,", "offset: usize,"]

/-- The constants and functions that every view has. -/
def viewMembers (schemaLines : Code) (side : Side) (encodedLength : UInt64) : Code :=
  Code.constant "ENCODED_LENGTH" "usize" (toString encodedLength.toNat) :: schemaLines ++
    Code.function ("wrap(buffer: " ++ side.buffer ++ "<'a>, offset: usize) -> Self")
      ["Self " ++ Code.braced "buffer, offset"] ++
    side.bufferFunction ++
    Code.function "offset(&self) -> usize" ["self.offset"] ++
    Code.function "encoded_length(&self) -> usize" ["Self::ENCODED_LENGTH"]

/-- How a view is shown; an encoder is shown through a decoder of the same bytes. -/
def viewDisplay (name : String) (side : Side) : Code :=
  display (codecName name side ++ "<'_>") <|
    match side with
    | .decoder => ["self.render(f)"]
    | .encoder =>
      [codecName name .decoder ++ "::wrap(self.buffer.as_read(), self.offset).render(f)"]

/-- A view with members of its own. -/
def view (settings : Settings) (schemaLines : Code) (first : Token) (side : Side)
    (members : Code) : Code :=
  prelude settings ++ viewStructure (codecName first.typeName side) side ++
    Code.spaced (Code.block
      ("impl<'a> " ++ codecName first.typeName side ++ "<'a>")
      (viewMembers schemaLines side first.encodedLength ++ members)) ++
    viewDisplay first.typeName side

end Sbe.Source
