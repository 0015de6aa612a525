import Sbe.Json.Number
import Sbe.Json.Printer
import Sbe.Schema

/-!
**The JSON form of tokens and schemas.**

* Writing puts the fields of a record in the order of their declaration and leaves out absent
  optional ones.
* Reading accepts a record as an object or as an array of its fields in the same order. In an
  object, unknown keys are skipped and a known key stands at most once; in an array, trailing fields
  with a default may be missing. Only optional fields accept null.
* An enumeration is its name, or an object whose only key is that name and whose value is null.
-/

namespace Sbe

open Sbe.Json (Value)

/-! ### Writing -/

namespace Scalar

/-- The JSON form of a scalar. -/
def toJson : Scalar → Value
  | int value => .int value.toInt
  | uint value => .int value.toNat
  | float value => .double value
  | text value => .text value

end Scalar

/-- A member of an object that is left out when it is absent. -/
def optionalMember {α : Type} (key : String) (toJson : α → Value) :
    Option α → List (String × Value)
  | some value => [(key, toJson value)]
  | none => []

namespace Encoding

/-- The JSON form of an encoding. -/
def toJson (encoding : Encoding) : Value := .record <|
  optionalMember "primitiveType" (fun primitive => .text primitive.name) encoding.primitive ++
  [("byteOrder", .text encoding.byteOrder.name), ("presence", .text encoding.presence.name)] ++
  optionalMember "minValue" Scalar.toJson encoding.least ++
  optionalMember "maxValue" Scalar.toJson encoding.greatest ++
  optionalMember "nullValue" Scalar.toJson encoding.null ++
  optionalMember "constValue" Scalar.toJson encoding.constant ++
  optionalMember "characterEncoding" .text encoding.charset ++
  optionalMember "semanticType" .text encoding.semanticType ++
  optionalMember "epoch" .text encoding.epoch ++
  optionalMember "timeUnit" .text encoding.timeUnit

end Encoding

namespace Token

/-- The JSON form of a token. -/
def toJson (token : Token) : Value := .record <|
  [("signal", .text token.signal.name), ("name", .text token.name)] ++
  optionalMember "referencedName" .text token.referencedName ++
  optionalMember "description" .text token.description ++
  [("id", .int token.id.toInt), ("version", .int token.version.toNat),
    ("offset", .int token.offset.toNat), ("encodedLength", .int token.encodedLength.toNat),
    ("componentTokenCount", .int token.componentTokenCount.toNat),
    ("encoding", token.encoding.toJson)]

/-- The JSON form of a list of tokens. -/
def listToJson (tokens : List Token) : Value := .array (tokens.map toJson)

end Token

namespace Schema

/-- The JSON form of a schema. -/
def toJson (schema : Schema) : Value := .record <|
  [("packageName", .text schema.packageName)] ++
  optionalMember "namespace" .text schema.namespaceName ++
  [("id", .int schema.id.toInt), ("version", .int schema.version.toNat)] ++
  optionalMember "semanticVersion" .text schema.semanticVersion ++
  [("header", Token.listToJson schema.header),
    ("types", .array (schema.types.map Token.listToJson)),
    ("messages", .array (schema.messages.map Token.listToJson))]

end Schema

/-! ### Reading -/

/-- The fields of a record by name. -/
abbrev Fields := String → Option Value

/-- The fields of a record from an object or an array. -/
def fields? (keys : List String) : Value → Option Fields
  | .array items =>
    if items.length ≤ keys.length then some fun key => (keys.zip items).lookup key else none
  | .object members =>
    let once (key : String) : Bool :=
      (members.filter fun member => member.1 == some key).length ≤ 1
    if members.all (fun member => member.1.isSome) && keys.all once then
      some fun key => members.lookup (some key)
    else none
  | _ => none

namespace Fields

variable {α : Type}

/-- A field that must be there. -/
def required (fields : Fields) (key : String) (read : Value → Option α) : Option α :=
  (fields key).bind read

/-- A field with a default. -/
def withDefault (fields : Fields) (key : String) (default : α) (read : Value → Option α) :
    Option α :=
  match fields key with
  | none => some default
  | some value => read value

/-- A field that may be absent or null. -/
def optional (fields : Fields) (key : String) (read : Value → Option α) : Option (Option α) :=
  match fields key with
  | none | some .null => some none
  | some value => (read value).map some

end Fields

/-- The text of a string. -/
def readText : Value → Option String
  | .string text => text
  | _ => none

/-- The member of an enumeration with a given name. -/
def readName {α : Type} (ofName? : String → Option α) : Value → Option α
  | .string (some name) => ofName? name
  | .object [(some name, .null)] => ofName? name
  | _ => none

/-- An integer between two bounds. -/
def readInteger (least greatest : Int) : Value → Option Int
  | .number numeral =>
    numeral.int?.filter fun value => decide (least ≤ value) && decide (value ≤ greatest)
  | _ => none

/-- A signed 32-bit integer. -/
def readInt32 (value : Value) : Option Int32 :=
  (readInteger (-2147483648) 2147483647 value).map .ofInt

/-- An unsigned 32-bit integer. -/
def readUInt32 (value : Value) : Option UInt32 :=
  (readInteger 0 4294967295 value).map fun number => .ofNat number.toNat

/-- An unsigned 64-bit integer. -/
def readUInt64 (value : Value) : Option UInt64 :=
  (readInteger 0 18446744073709551615 value).map fun number => .ofNat number.toNat

/-- The items of an array. -/
def readList {α : Type} (read : Value → Option α) : Value → Option (List α)
  | .array items => items.mapM read
  | _ => none

namespace Scalar

/-- A scalar from a number or a string. -/
def ofJson? : Value → Option Scalar
  | .number numeral =>
    match numeral.number? with
    | some (.int value) => some (.int value)
    | some (.uint value) => some (.uint value)
    | some (.double value) => some (.float value)
    | none => none
  | .string content => content.map .text
  | _ => none

end Scalar

namespace Encoding

/-- The fields of an encoding. -/
def keys : List String :=
  ["primitiveType", "byteOrder", "presence", "minValue", "maxValue", "nullValue", "constValue",
    "characterEncoding", "semanticType", "epoch", "timeUnit"]

/-- An encoding from its JSON form. -/
def ofJson? (value : Value) : Option Encoding := do
  let fields ← fields? keys value
  pure {
    primitive := ← fields.optional "primitiveType" (readName Primitive.ofName?)
    byteOrder := ← fields.withDefault "byteOrder" .littleEndian (readName ByteOrder.ofName?)
    presence := ← fields.withDefault "presence" .required (readName Presence.ofName?)
    least := ← fields.optional "minValue" Scalar.ofJson?
    greatest := ← fields.optional "maxValue" Scalar.ofJson?
    null := ← fields.optional "nullValue" Scalar.ofJson?
    constant := ← fields.optional "constValue" Scalar.ofJson?
    charset := ← fields.optional "characterEncoding" readText
    semanticType := ← fields.optional "semanticType" readText
    epoch := ← fields.optional "epoch" readText
    timeUnit := ← fields.optional "timeUnit" readText }

end Encoding

namespace Token

/-- The fields of a token. -/
def keys : List String :=
  ["signal", "name", "referencedName", "description", "id", "version", "offset", "encodedLength",
    "componentTokenCount", "encoding"]

/-- A token from its JSON form. -/
def ofJson? (value : Value) : Option Token := do
  let fields ← fields? keys value
  pure {
    signal := ← fields.required "signal" (readName Signal.ofName?)
    name := ← fields.required "name" readText
    referencedName := ← fields.optional "referencedName" readText
    description := ← fields.optional "description" readText
    id := ← fields.withDefault "id" (-1) readInt32
    version := ← fields.withDefault "version" 0 readUInt32
    offset := ← fields.withDefault "offset" 0 readUInt64
    encodedLength := ← fields.withDefault "encodedLength" 0 readUInt64
    componentTokenCount := ← fields.withDefault "componentTokenCount" 1 readUInt64
    encoding := ← fields.withDefault "encoding" {} Encoding.ofJson? }

/-- A list of tokens from its JSON form. -/
def listOfJson? : Value → Option (List Token) := readList ofJson?

end Token

namespace Schema

/-- The fields of a schema. -/
def keys : List String :=
  ["packageName", "namespace", "id", "version", "semanticVersion", "header", "types", "messages"]

/-- A schema from its JSON form. -/
def ofJson? (value : Value) : Option Schema := do
  let fields ← fields? keys value
  pure {
    packageName := ← fields.required "packageName" readText
    namespaceName := ← fields.optional "namespace" readText
    id := ← fields.required "id" readInt32
    version := ← fields.withDefault "version" 0 readUInt32
    semanticVersion := ← fields.optional "semanticVersion" readText
    header := ← fields.required "header" Token.listOfJson?
    types := ← fields.withDefault "types" [] (readList Token.listOfJson?)
    messages := ← fields.withDefault "messages" [] (readList Token.listOfJson?) }

end Schema

end Sbe
