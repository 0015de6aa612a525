import Sbe.Buffer
import Sbe.Number.Decimal
import Sbe.Primitive

/-!
**Bit patterns of primitives.**

A value of a primitive type is held as the bit pattern it has on the wire.
-/

namespace Sbe.Primitive

open Sbe.Number

/-- Whether the primitive is a signed integer. -/
def isSigned : Primitive → Bool
  | int8 | int16 | int32 | int64 => true
  | _ => false

/-- The number of bit patterns of a primitive. -/
def patterns (primitive : Primitive) : Nat := patternCount primitive.size

/-- The bit pattern of an integer. -/
def pattern (primitive : Primitive) (value : Int) : Nat := (value % primitive.patterns).toNat

/-- The integer of a bit pattern. -/
def value (primitive : Primitive) (pattern : Nat) : Int :=
  if primitive.isSigned ∧ primitive.patterns ≤ 2 * pattern then
    (pattern : Int) - primitive.patterns
  else pattern

/-- The bit pattern of the null value. -/
def nullPattern : Primitive → Nat
  | float => 0x7fc00000
  | double => 0x7ff8000000000000
  | primitive => primitive.pattern (primitive.null.toInt?.getD 0)

/-- The value of a bit pattern as it is shown. -/
def shown (primitive : Primitive) (pattern : Nat) : String :=
  match primitive with
  | float => plain.text single (single.datum pattern)
  | double => plain.text Number.double (Number.double.datum pattern)
  | char => String.ofList [Char.ofNat pattern]
  | primitive => toString (primitive.value pattern)

end Sbe.Primitive
