import Sbe.Number.Binary

/-!
**Double precision numbers.**

A double is its bit pattern. Conversions and comparisons go through the exact value that the pattern
stands for.
-/

namespace Sbe.Number

/-- A double precision number, by its bit pattern. -/
structure Double where
  bits : UInt64
deriving DecidableEq

namespace Double

/-- The exact value of a double. -/
def datum (value : Double) : Datum := double.datum value.bits.toNat

/-- The double with the given sign nearest to a ratio. -/
def ofRatio (negative : Bool) (numerator denominator : Nat) : Double :=
  ⟨.ofNat ((if negative then double.signBit else 0) + double.round numerator denominator)⟩

/-- The double nearest to an integer. -/
def ofInt (value : Int) : Double := ofRatio (decide (value < 0)) value.natAbs 1

/-- The quiet value that is not a number. -/
def nan : Double := ⟨0x7ff8000000000000⟩

/-- Infinity with a sign. -/
def infinity (negative : Bool) : Double :=
  ⟨.ofNat ((if negative then double.signBit else 0) + double.infinity)⟩

/-- Whether a value is neither infinite nor not a number. -/
def isFinite (value : Double) : Bool :=
  match value.datum with
  | .finite .. => true
  | _ => false

/-- The same value with the opposite sign. -/
def neg (value : Double) : Double := ⟨value.bits ^^^ .ofNat double.signBit⟩

/-- The value without its sign, as a ratio; nothing for infinities and what is not a number. -/
def magnitude? (value : Double) : Option (Nat × Nat) :=
  match value.datum with
  | .finite _ mantissa power => some (scaleByTwo mantissa 1 (-power))
  | _ => none

/-- Whether two doubles compare equal: what is not a number equals nothing, and both zeros are
equal. -/
def equal (left right : Double) : Bool :=
  match left.datum, right.datum with
  | .nan, _ => false
  | _, .nan => false
  | .finite _ 0 _, .finite _ 0 _ => true
  | _, _ => left.bits == right.bits

/-- Whether the magnitude of a finite value is greater than that of another; patterns without their
sign are ordered as the magnitudes they stand for. -/
def outweighs (left right : Double) : Bool :=
  decide (right.bits.toNat % double.signBit < left.bits.toNat % double.signBit)

/-- The integer a double is equal to, if there is one. -/
def toInt? (value : Double) : Option Int :=
  match value.datum with
  | .finite negative mantissa power =>
    let scaled := scaleByTwo mantissa 1 (-power)
    if scaled.1 % scaled.2 = 0 then
      let size : Int := (scaled.1 / scaled.2 : Nat)
      some (if negative then -size else size)
    else none
  | _ => none

/-- The product of two values without sign, rounded; zero where a factor is not finite. -/
def times (left right : Double) : Double :=
  match left.magnitude?, right.magnitude? with
  | some (n, d), some (n', d') => ofRatio false (n * n') (d * d')
  | _, _ => ⟨0⟩

/-- The quotient of two values without sign, rounded; zero where it is not defined. -/
def dividedBy (left right : Double) : Double :=
  match left.magnitude?, right.magnitude? with
  | some (n, d), some (n', d') => if n' = 0 then ⟨0⟩ else ofRatio false (n * d') (d * n')
  | _, _ => ⟨0⟩

end Double

end Sbe.Number
