import Sbe.Error

/-!
**Tokens.**

A token is one element of the pre-order stream that describes a message or a type. An opening token
says how many tokens its element spans, itself and the closing token included. The encoding of a
token says how its value is laid out and which values it may take.
-/

namespace Sbe

/-- The order of the bytes of one element on the wire. -/
inductive ByteOrder where
  | littleEndian
  | bigEndian
deriving DecidableEq

namespace ByteOrder

/-- The name of an order in the JSON form of a token. -/
def name : ByteOrder → String
  | littleEndian => "littleEndian"
  | bigEndian => "bigEndian"

/-- The order with a given name; each has a second name in capitals. -/
def ofName? : String → Option ByteOrder
  | "littleEndian" | "LITTLE_ENDIAN" => some littleEndian
  | "bigEndian" | "BIG_ENDIAN" => some bigEndian
  | _ => none

/-- The expression for an order in generated source. -/
def path : ByteOrder → String
  | littleEndian => "ByteOrder::LittleEndian"
  | bigEndian => "ByteOrder::BigEndian"

end ByteOrder

/-- Whether a value is always there, may be null, or is fixed by the schema. -/
inductive Presence where
  | required
  | optional
  | constant
deriving DecidableEq

namespace Presence

/-- The name of a presence. -/
def name : Presence → String
  | required => "required"
  | optional => "optional"
  | constant => "constant"

/-- The presence with a given name. -/
def ofName? : String → Option Presence
  | "required" => some required
  | "optional" => some optional
  | "constant" => some constant
  | _ => none

end Presence

/-- How the value of a token is laid out and interpreted. -/
structure Encoding where
  primitive : Option Primitive := none
  byteOrder : ByteOrder := .littleEndian
  presence : Presence := .required
  least : Option Scalar := none
  greatest : Option Scalar := none
  null : Option Scalar := none
  constant : Option Scalar := none
  charset : Option String := none
  semanticType : Option String := none
  epoch : Option String := none
  timeUnit : Option String := none
deriving DecidableEq

namespace Encoding

/-- A required little-endian value of a primitive type. -/
def of (primitive : Primitive) : Encoding := { primitive := some primitive }

/-- The same encoding with a value fixed by the schema. -/
def withConstant (encoding : Encoding) (value : Scalar) : Encoding :=
  { encoding with presence := .constant, constant := some value }

/-- The declared bound below, or the one of the primitive. -/
def least? (encoding : Encoding) : Option Scalar :=
  encoding.least.or (encoding.primitive.map Primitive.least)

/-- The declared bound above, or the one of the primitive. -/
def greatest? (encoding : Encoding) : Option Scalar :=
  encoding.greatest.or (encoding.primitive.map Primitive.greatest)

/-- The declared null value, or the one of the primitive. -/
def null? (encoding : Encoding) : Option Scalar :=
  encoding.null.or (encoding.primitive.map Primitive.null)

/-- The number of bytes of one element, zero without a primitive. -/
def size (encoding : Encoding) : Nat := (encoding.primitive.map Primitive.size).getD 0

end Encoding

/-- One element of a token stream. -/
structure Token where
  signal : Signal
  name : String
  referencedName : Option String := none
  description : Option String := none
  id : Int32 := -1
  version : UInt32 := 0
  offset : UInt64 := 0
  encodedLength : UInt64 := 0
  componentTokenCount : UInt64 := 1
  encoding : Encoding := {}
deriving DecidableEq

namespace Token

/-- The name of the type a token introduces: the name it refers to, or its own. -/
def typeName (token : Token) : String := token.referencedName.getD token.name

/-- The primitive type of a token. -/
def primitive (token : Token) : Result Primitive :=
  .ofOption (.missingPrimitive token.name) token.encoding.primitive

/-- The number of elements in the value of a token, one for a single value. -/
def arrayLength (token : Token) : Nat :=
  match token.encoding.primitive with
  | some primitive =>
    if primitive.size < token.encodedLength.toNat then token.encodedLength.toNat / primitive.size
    else 1
  | none => 1

/-- Whether the value of a token is fixed by the schema. -/
def isConstant (token : Token) : Bool := token.encoding.presence == .constant

/-- Whether the value of a token may be null. -/
def isOptional (token : Token) : Bool := token.encoding.presence == .optional

/-- The number of tokens an opening token claims for its element. -/
def span (token : Token) : Nat := token.componentTokenCount.toNat

end Token

end Sbe
