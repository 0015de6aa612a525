import Sbe.Scalar

/-!
**Primitive types.**

Each primitive has a size on the wire, a type in generated source, and default bounds and null value
for fields that declare none.
-/

namespace Sbe

open Sbe.Number

/-- The type of one element on the wire. -/
inductive Primitive where
  | char
  | int8
  | int16
  | int32
  | int64
  | uint8
  | uint16
  | uint32
  | uint64
  | float
  | double
deriving DecidableEq

namespace Primitive

/-- Every primitive. -/
def all : List Primitive :=
  [char, int8, int16, int32, int64, uint8, uint16, uint32, uint64, float, double]

/-- The name of a primitive in the JSON form of a token. -/
def name : Primitive → String
  | char => "char"
  | int8 => "int8"
  | int16 => "int16"
  | int32 => "int32"
  | int64 => "int64"
  | uint8 => "uint8"
  | uint16 => "uint16"
  | uint32 => "uint32"
  | uint64 => "uint64"
  | float => "float"
  | double => "double"

/-- The word for a primitive in messages. -/
def word : Primitive → String
  | char => "Char"
  | int8 => "Int8"
  | int16 => "Int16"
  | int32 => "Int32"
  | int64 => "Int64"
  | uint8 => "Uint8"
  | uint16 => "Uint16"
  | uint32 => "Uint32"
  | uint64 => "Uint64"
  | float => "Float"
  | double => "Double"

/-- The primitive with a given name. -/
def ofName? (name : String) : Option Primitive := all.find? fun primitive => primitive.name == name

/-- The number of bytes of one element. -/
def size : Primitive → Nat
  | char | int8 | uint8 => 1
  | int16 | uint16 => 2
  | int32 | uint32 | float => 4
  | int64 | uint64 | double => 8

/-- The type of an element in generated source. -/
def sourceType : Primitive → String
  | char | uint8 => "u8"
  | int8 => "i8"
  | int16 => "i16"
  | int32 => "i32"
  | int64 => "i64"
  | uint16 => "u16"
  | uint32 => "u32"
  | uint64 => "u64"
  | float => "f32"
  | double => "f64"

/-- Whether the primitive is an unsigned integer; characters are not. -/
def isUnsigned : Primitive → Bool
  | uint8 | uint16 | uint32 | uint64 => true
  | _ => false

/-- Whether the primitive is a floating point number. -/
def isFloat : Primitive → Bool
  | float | double => true
  | _ => false

/-- The least and the greatest integer the primitive can hold. -/
def range? : Primitive → Option (Int × Int)
  | char | uint8 => some (0, 255)
  | int8 => some (-128, 127)
  | int16 => some (-32768, 32767)
  | int32 => some (-2147483648, 2147483647)
  | int64 => some (-9223372036854775808, 9223372036854775807)
  | uint16 => some (0, 65535)
  | uint32 => some (0, 4294967295)
  | uint64 => some (0, 18446744073709551615)
  | float | double => none

/-- The greatest finite value of a floating point primitive, as a double. -/
def greatestFinite (primitive : Primitive) : Double :=
  if primitive = float then ⟨0x47efffffe0000000⟩ else ⟨0x7fefffffffffffff⟩

/-- The bound below for fields that declare none. -/
def least : Primitive → Scalar
  | char => .int 0x20
  | int8 => .int (-127)
  | int16 => .int (-32767)
  | int32 => .int (-2147483647)
  | int64 => .int (-9223372036854775807)
  | uint8 | uint16 | uint32 | uint64 => .int 0
  | float => .float (greatestFinite float).neg
  | double => .float (greatestFinite double).neg

/-- The bound above for fields that declare none. -/
def greatest : Primitive → Scalar
  | char => .int 0x7e
  | int8 => .int 127
  | int16 => .int 32767
  | int32 => .int 2147483647
  | int64 => .int 9223372036854775807
  | uint8 => .int 254
  | uint16 => .int 65534
  | uint32 => .int 4294967294
  | uint64 => .uint 18446744073709551614
  | float => .float (greatestFinite float)
  | double => .float (greatestFinite double)

/-- The value that stands for an absent one in fields that declare none. -/
def null : Primitive → Scalar
  | char => .int 0
  | int8 => .int (-128)
  | int16 => .int (-32768)
  | int32 => .int (-2147483648)
  | int64 => .int (-9223372036854775808)
  | uint8 => .int 255
  | uint16 => .int 65535
  | uint32 => .int 4294967295
  | uint64 => .uint 18446744073709551615
  | float | double => .float .nan

end Primitive

end Sbe
