import Sbe.Outcome
import Sbe.Primitive
import Sbe.Signal

/-!
**Why a schema is refused.**

Each cause is a constructor with what it is about. `SchemaError.message` is the sentence for a
reader, `SchemaError.detail` lists the parts of the cause by name.
-/

namespace Sbe

/-- The four fields of a message header that every schema must describe. -/
inductive HeaderField where
  | blockLength
  | templateId
  | schemaId
  | version
deriving DecidableEq

namespace HeaderField

/-- The name of a header field in a schema. -/
def name : HeaderField → String
  | blockLength => "blockLength"
  | templateId => "templateId"
  | schemaId => "schemaId"
  | version => "version"

end HeaderField

/-- What is wrong with the span of an opening token. -/
inductive SpanFault where
  /-- A closing token stands where an element should start. -/
  | strayEnd
  /-- The count is below two or reaches past the element around it. -/
  | overrun (count : Nat)
  /-- The token at the end of the span does not close the element of that name. -/
  | misclosed (closing : Signal) (name : String) (last : Nat) (found : Signal) (foundName : String)
  /-- The count is below two or reaches past the list. -/
  | tooLong (count length : Nat)
  /-- The token at the end of the span has another signal. -/
  | wrongEnd (closing : Signal) (last : Nat) (found : Signal)
  /-- The dimension composite reaches the end of its group. -/
  | dimensions (group : String)
deriving DecidableEq

namespace SpanFault

/-- The sentence for a fault of a span. -/
def message : SpanFault → String
  | strayEnd => "end signal without a matching begin"
  | overrun count =>
    "component token count " ++ toString count ++ " overruns its enclosing span"
  | misclosed closing name last found foundName =>
    "expected " ++ closing.word ++ " " ++ name ++ " at index " ++ toString last ++ " but found " ++
      found.word ++ " " ++ foundName
  | tooLong count length =>
    "component token count " ++ toString count ++ " does not fit in " ++ toString length ++
      " tokens"
  | wrongEnd closing last found =>
    "expected " ++ closing.word ++ " at index " ++ toString last ++ " but found " ++ found.word
  | dimensions group => "dimension header overruns group " ++ group

end SpanFault

/-- A list of tokens that must not be empty. -/
inductive TokenList where
  | header
  | type
  | message
  | fieldType
deriving DecidableEq

namespace TokenList

/-- What a list of tokens is called in messages. -/
def name : TokenList → String
  | header => "header"
  | type => "type"
  | message => "message"
  | fieldType => "field type"

end TokenList

/-- Why a schema, its settings or its output is refused. -/
inductive SchemaError where
  | files
  | json
  | settings
  | misplaced (expected found : Signal) (name : String)
  | unbalanced (name : String) (signal : Signal) (index : Nat) (reason : SpanFault)
  | unexpectedToken (name : String) (signal : Signal) (index : Nat)
  | unsupportedPrimitive (name : String) (primitive : Primitive)
  | emptyTokens (list : TokenList)
  | missingConstant (name : String)
  | missingPrimitive (name : String)
  | reservedWord (name : String)
  | invalidName (name : String)
  | unsupportedCharset (name charset : String)
  | unknownType (name field : String)
  | duplicateType (name : String)
  | missingHeaderField (field : HeaderField)
  | outOfRange (name value : String) (primitive : Primitive)
  | choiceBit (name : String) (bit : Nat) (primitive : Primitive)
deriving DecidableEq

namespace SchemaError

/-- The sentence for a cause. -/
def message : SchemaError → String
  | files => "I/O error"
  | json => "IR decode error"
  | settings => "Config error"
  | misplaced expected found name =>
    "tokens must begin with " ++ expected.word ++ ": token=" ++ name ++ " signal=" ++ found.word
  | unbalanced name signal index reason =>
    "Unbalanced token " ++ name ++ " (" ++ signal.word ++ ") at index " ++ toString index ++ ": " ++
      reason.message
  | unexpectedToken name signal index =>
    "Unexpected token " ++ name ++ " (" ++ signal.word ++ ") at index " ++ toString index
  | unsupportedPrimitive name primitive =>
    "Unsupported primitive type " ++ primitive.word ++ " for " ++ name
  | emptyTokens list => "Empty token list for " ++ list.name
  | missingConstant name => "Constant " ++ name ++ " has no value"
  | missingPrimitive name => "Token " ++ name ++ " has no primitive type"
  | reservedWord name =>
    "Invalid property name " ++ name ++ ": it is a reserved word, set a keyword append token"
  | invalidName name => "Invalid name " ++ name ++ ": not a valid identifier"
  | unsupportedCharset name charset =>
    "Unsupported character encoding " ++ charset ++ " for " ++ name
  | unknownType name field => "The type " ++ name ++ " is not defined for " ++ field
  | duplicateType name => "The type " ++ name ++ " is defined twice"
  | missingHeaderField field => "Message header is missing the " ++ field.name ++ " field"
  | outOfRange name value primitive =>
    "Value " ++ value ++ " is out of range for " ++ primitive.word ++ " in " ++ name
  | choiceBit name bit primitive =>
    "Choice " ++ name ++ " uses bit " ++ toString bit ++ ", which does not fit in " ++
      primitive.word

/-- The word for the kind of a cause. -/
def kind : SchemaError → String
  | files => "Io"
  | json => "Json"
  | settings => "Config"
  | misplaced .. => "Structure"
  | unbalanced .. => "Unbalanced"
  | unexpectedToken .. => "UnexpectedToken"
  | unsupportedPrimitive .. => "UnsupportedPrimitive"
  | emptyTokens .. => "EmptyTokens"
  | missingConstant .. => "MissingConstValue"
  | missingPrimitive .. => "MissingPrimitiveType"
  | reservedWord .. => "ReservedWord"
  | invalidName .. => "InvalidName"
  | unsupportedCharset .. => "UnsupportedCharacterEncoding"
  | unknownType .. => "UnknownType"
  | duplicateType .. => "DuplicateType"
  | missingHeaderField .. => "MissingHeaderField"
  | outOfRange .. => "ValueOutOfRange"
  | choiceBit .. => "InvalidChoiceBit"

/-- The parts of a cause with their names; a part without a name stands alone. -/
def parts : SchemaError → List (Option String × String)
  | files | json | settings => []
  | misplaced expected found name =>
    [(some "expected", expected.word), (some "found", found.word), (some "name", Text.quote name)]
  | unbalanced name signal index reason =>
    [(some "name", Text.quote name), (some "signal", signal.word), (some "index", toString index),
      (some "msg", Text.quote reason.message)]
  | unexpectedToken name signal index =>
    [(some "name", Text.quote name), (some "signal", signal.word), (some "index", toString index)]
  | unsupportedPrimitive name primitive =>
    [(some "name", Text.quote name), (some "primitive_type", primitive.word)]
  | emptyTokens list => [(none, Text.quote list.name)]
  | missingConstant name => [(none, Text.quote name)]
  | missingPrimitive name => [(none, Text.quote name)]
  | reservedWord name => [(none, Text.quote name)]
  | invalidName name => [(none, Text.quote name)]
  | unsupportedCharset name charset =>
    [(some "name", Text.quote name), (some "encoding", Text.quote charset)]
  | unknownType name field => [(some "name", Text.quote name), (some "field", Text.quote field)]
  | duplicateType name => [(none, Text.quote name)]
  | missingHeaderField field => [(none, Text.quote field.name)]
  | outOfRange name value primitive =>
    [(some "name", Text.quote name), (some "value", Text.quote value),
      (some "primitive_type", primitive.word)]
  | choiceBit name bit primitive =>
    [(some "name", Text.quote name), (some "bit", toString bit),
      (some "primitive_type", primitive.word)]

/-- A cause with all its parts: named parts in braces, a part without a name in parentheses. -/
def detail (error : SchemaError) : String :=
  match error.parts with
  | [] => error.kind
  | [(none, part)] => error.kind ++ "(" ++ part ++ ")"
  | parts =>
    let entry (part : Option String × String) := part.1.getD "" ++ ": " ++ part.2
    error.kind ++ " \x7b " ++ String.intercalate ", " (parts.map entry) ++ " \x7d"

end SchemaError

/-- The outcome of work on a schema. -/
abbrev Result (α : Type) := Outcome SchemaError α

end Sbe
