import Sbe.Json.Value
import Sbe.Number.Reader

/-!
**The numbers that JSON numerals stand for.**

A numeral without point and exponent is an integer when it fits 64 bits with or without a sign; a
negative zero is not an integer. Every other numeral is a double. It is found in two roundings: the
leading digits that fit a 64-bit word are rounded to a double, which is then multiplied or divided
by the double nearest to the power of ten. A numeral too large for a double stands for nothing.
-/

namespace Sbe.Json

open Sbe.Number

/-- What a numeral can stand for. -/
inductive Number where
  | int (value : Int64)
  | uint (value : UInt64)
  | double (value : Double)
deriving DecidableEq

/-- Takes digits into a 64-bit word while they fit: the word, how many were taken, and the rest. -/
def absorb (word : Nat) (taken : Nat) : List Char → Nat × Nat × List Char
  | [] => (word, taken, [])
  | digit :: rest =>
    let next := word * 10 + (digit.toNat - '0'.toNat)
    if next < UInt64.size then absorb next (taken + 1) rest else (word, taken, digit :: rest)

/-- The double nearest to a power of ten. -/
def powerOfTen (exponent : Nat) : Double := .ofRatio false (tenTo exponent) 1

/-- A double divided by a power of ten, in steps of at most `10 ^ 308`. -/
def divideByTen : Nat → Double → Nat → Double
  | 0, value, _ => value
  | fuel + 1, value, exponent =>
    if exponent ≤ 308 then value.dividedBy (powerOfTen exponent)
    else divideByTen fuel (value.dividedBy (powerOfTen 308)) (exponent - 308)

/-- A word times a power of ten as a double; nothing when it is too large. -/
def scaleWord (word : Nat) (exponent : Int) : Option Double :=
  let value := Double.ofRatio false word 1
  if word = 0 then some value
  else if exponent < 0 then some (divideByTen 4 value (-exponent).toNat)
  else if exponent ≤ 308 then
    let scaled := value.times (powerOfTen exponent.toNat)
    if scaled.isFinite then some scaled else none
  else none

namespace Numeral

/-- The largest exponent that is read digit by digit. -/
def exponentBound : Nat := 2147483647

/-- The size of a numeral as a double. -/
def size? (numeral : Numeral) : Option Double :=
  let (word, _, dropped) := absorb 0 0 numeral.whole
  let (word, taken, _) := absorb word 0 (numeral.fraction.getD [])
  let start : Int := (dropped.length : Int) - taken
  match numeral.exponent with
  | none => scaleWord word start
  | some (negative, exponent) =>
    if exponentBound < exponent then
      if word ≠ 0 ∧ !negative then none else some ⟨0⟩
    else scaleWord word (start + withSign negative exponent)

/-- The number of signed words that are not negative. -/
def signedSize : Nat := 9223372036854775808

/-- The number a numeral stands for. -/
def number? (numeral : Numeral) : Option Number :=
  let size := digitsValue numeral.whole
  let double := numeral.size?.map fun value =>
    Number.double (if numeral.negative then value.neg else value)
  if numeral.fraction.isSome || numeral.exponent.isSome then double
  else if numeral.negative then
    if size = 0 || signedSize < size then double else some (.int (.ofInt (-(size : Int))))
  else if size < signedSize then some (.int (.ofNat size))
  else if size < UInt64.size then some (.uint (.ofNat size))
  else double

/-- The integer a numeral stands for, if it stands for one. -/
def int? (numeral : Numeral) : Option Int :=
  match numeral.number? with
  | some (.int value) => some value.toInt
  | some (.uint value) => some value.toNat
  | _ => none

end Numeral

end Sbe.Json
