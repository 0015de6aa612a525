import Sbe.Source.Accessor
import Sbe.Source.Enumeration
import Sbe.Source.Render
import Sbe.Source.View

/-!
**Units of composites.**

A composite is a view with the accessors of its members; its decoder shows them as text.
-/

namespace Sbe.Source

/-- The shared interfaces of a composite. -/
def compositeInterfaces (settings : Settings) (typeName : String) (side : Side) : Code :=
  let support := settings.supportPath
  Code.spaced (Code.block ("impl<'a> " ++ support ++ "::Flyweight for " ++ typeName ++ "<'a>")
    (Code.block "fn offset(&self) -> usize" ["self.offset"] ++
    Code.spaced (Code.block "fn encoded_length(&self) -> usize" ["Self::ENCODED_LENGTH"]))) ++
  Code.spaced (Code.block
    ("impl<'a> " ++ support ++ "::Composite" ++ side.suffix ++ "Flyweight<" ++ side.buffer ++
      "<'a>> for " ++ typeName ++ "<'a>")
    (Code.block ("fn wrap(buffer: " ++ side.buffer ++ "<'a>, offset: usize) -> Self")
      [typeName ++ "::wrap(buffer, offset)"]))

/-- The unit of one side of a composite, given its first token and all its tokens. -/
def compositeUnit (settings : Settings) (schema : Schema) (first : Token) (tokens : List Token)
    (side : Side) : Result Code := do
  let properties ← members 0 (inner tokens)
  let schemaLines ← schemaConstants schema
  let functions ← properties.mapM (accessors settings side .composite)
  let render ←
    match side with
    | .decoder => compositeRender settings properties
    | .encoder => pure []
  let typeName := codecName first.typeName side
  pure <| view settings schemaLines first side (functions.flatten ++ render) ++
    if settings.generateInterfaces then compositeInterfaces settings typeName side else []

end Sbe.Source
