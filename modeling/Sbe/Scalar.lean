import Sbe.Number.Reader
import Sbe.Text.Blank
import Sbe.Text.Quoted

/-!
**Scalars.**

A scalar is the value a token carries: a constant, a bound, a null sentinel, or the value of an enum
variant or a set choice. It keeps the kind it was written in, and is read as an integer, a double or
a text by whoever needs one of those.
-/

namespace Sbe

open Sbe.Number

/-- A value carried by a token. -/
inductive Scalar where
  | int (value : Int64)
  | uint (value : UInt64)
  | float (value : Double)
  | text (value : String)
deriving DecidableEq

/-- The least 128-bit integer. -/
def leastInt128 : Int := -170141183460469231731687303715884105728

/-- The greatest 128-bit integer. -/
def greatestInt128 : Int := 170141183460469231731687303715884105727

namespace Scalar

/-- The scalar as an integer. A whole double is cut off at the bounds of 128 bits, a single
character other than a digit is its code point, and any other text must be a number of at most 128
bits. -/
def toInt? : Scalar → Option Int
  | int value => some value.toInt
  | uint value => some value.toNat
  | float value => value.toInt?.map fun whole => max leastInt128 (min greatestInt128 whole)
  | text value =>
    let number := (readInt? (Text.trim value)).filter fun whole =>
      decide (leastInt128 ≤ whole) && decide (whole ≤ greatestInt128)
    match value.toList with
    | [character] => if character.isDigit then number else some character.toNat
    | _ => number

/-- The scalar as a double. -/
def toDouble? : Scalar → Option Double
  | int value => some (.ofInt value.toInt)
  | uint value => some (.ofInt value.toNat)
  | float value => some value
  | text value => readDouble? (Text.trim value)

/-- The text of a scalar that was written as one. -/
def toText? : Scalar → Option String
  | text value => some value
  | _ => none

/-- Whether two scalars are of one kind and equal. -/
def same : Scalar → Scalar → Bool
  | int left, int right => left == right
  | uint left, uint right => left == right
  | float left, float right => left.equal right
  | text left, text right => left == right
  | _, _ => false

/-- The scalar as it is shown in messages; text is quoted. -/
def shown : Scalar → String
  | int value => toString value.toInt
  | uint value => toString value.toNat
  | float value => value.text
  | text value => Text.quote value

end Scalar

end Sbe
