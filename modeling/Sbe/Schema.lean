import Sbe.Token

/-!
**Schemas.**

A schema holds the token streams of its message header, of its types and of its messages. Types and
header fields are found by name, the first of a name counting.
-/

namespace Sbe

/-- A message schema in its intermediate form. -/
structure Schema where
  packageName : String
  namespaceName : Option String := none
  id : Int32
  version : UInt32 := 0
  semanticVersion : Option String := none
  header : List Token
  types : List (List Token) := []
  messages : List (List Token) := []
deriving DecidableEq

/-- The name of the type that a token stream defines. -/
def definedName (tokens : List Token) : Option String := tokens.head?.map Token.typeName

namespace Schema

/-- The name of the header composite. -/
def headerName? (schema : Schema) : Option String := definedName schema.header

/-- The token of a header field. -/
def headerField (schema : Schema) (field : HeaderField) : Result Token :=
  .ofOption (.missingHeaderField field)
    (schema.header.find? fun token => token.signal == .encoding && token.name == field.name)

/-- The primitive type of a header field. -/
def headerPrimitive (schema : Schema) (field : HeaderField) : Result Primitive := do
  (← schema.headerField field).primitive

/-- The token stream that defines the type of a given name. -/
def type? (schema : Schema) (name : String) : Option (List Token) :=
  schema.types.find? fun tokens => definedName tokens == some name

end Schema

end Sbe
