import Sbe.Token

/-!
**Literals and buffer accesses in source text.**

The bounds of an integer type are written through its named constants, so that a literal can stand
as a pattern and never overflows.
-/

namespace Sbe.Source

open Sbe.Number

/-- The low 64 bits of an integer, zero for a negative one. -/
def lowWord (value : Int) : Nat := value.toNat % wordBound

/-- The literal of an integer within the range of its primitive. -/
def intLiteral (primitive : Primitive) (least greatest value : Int) : String :=
  if value = greatest ∧ 0 < greatest ∧ primitive ≠ .char then primitive.sourceType ++ "::MAX"
  else if value = least ∧ least < 0 then primitive.sourceType ++ "::MIN"
  else toString value

/-- The literal of a double, nothing when it is finite and too large for its primitive. -/
def floatLiteral? (primitive : Primitive) (value : Double) : Option String :=
  let greatest := primitive.greatestFinite
  match value.datum with
  | .nan => some (primitive.sourceType ++ "::NAN")
  | .infinite false => some (primitive.sourceType ++ "::INFINITY")
  | .infinite true => some (primitive.sourceType ++ "::NEG_INFINITY")
  | .finite .. =>
    if value = greatest then some (primitive.sourceType ++ "::MAX")
    else if value = greatest.neg then some (primitive.sourceType ++ "::MIN")
    else if value.outweighs greatest then none
    else some value.literal

/-- The literal of a scalar as a value of a primitive type, for the element of the given name. -/
def literal (primitive : Primitive) (value : Scalar) (name : String) : Result String :=
  .ofOption (.outOfRange name value.shown primitive) <|
    match primitive.range? with
    | some (least, greatest) => do
      let whole ← value.toInt?
      if least ≤ whole ∧ whole ≤ greatest then some (intLiteral primitive least greatest whole)
      else none
    | none => value.toDouble?.bind (floatLiteral? primitive)

/-- An offset from a base; nothing is added for zero. -/
def offsetFrom (base : String) (offset : UInt64) : String :=
  if offset = 0 then base else base ++ " + " ++ toString offset.toNat

/-- The last arguments of an access: the byte order where an element has more than one byte. -/
def orderArgument (primitive : Primitive) (order : ByteOrder) : String :=
  if primitive.size = 1 then "" else ", " ++ order.path

/-- A read of one element. -/
def readAt (primitive : Primitive) (buffer index : String) (order : ByteOrder) : String :=
  buffer ++ ".get_" ++ primitive.sourceType ++ "(" ++ index ++ orderArgument primitive order ++ ")"

/-- A write of one element. -/
def writeAt (primitive : Primitive) (buffer index value : String) (order : ByteOrder) : String :=
  buffer ++ ".put_" ++ primitive.sourceType ++ "(" ++ index ++ ", " ++ value ++
    orderArgument primitive order ++ ");"

/-- Bytes as the elements of a list. -/
def byteList (bytes : List UInt8) : String :=
  "[" ++ String.intercalate ", " (bytes.map fun byte => toString byte.toNat) ++ "]"

end Sbe.Source
