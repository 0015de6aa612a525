import Sbe.Number.Double

/-!
**Decimal numbers.**

A decimal is a number of units of a power of ten. `shortest` finds the decimal with the fewest
digits that still reads back as a given binary value: on the grid of each digit count in turn it
tests the two grid points around the value, and the first grid with a point inside the rounding
interval wins. `Decimal.toDouble` rounds the other way, and a `Style` lays digits out with a point
or an exponent.
-/

namespace Sbe.Number

/-- The value `digits * 10 ^ exponent`. -/
structure Decimal where
  digits : Nat
  exponent : Int
deriving DecidableEq

/-- A power of ten. -/
def tenTo (exponent : Nat) : Nat := Nat.pow 10 exponent

/-- The number of decimal digits of a natural number. -/
def digitCount (number : Nat) : Nat := (Nat.toDigits 10 number).length

/-- The double nearest to a decimal, with the given sign; infinity past the largest one. -/
def Decimal.toDouble (decimal : Decimal) (negative : Bool) : Double :=
  let order := decimal.exponent + digitCount decimal.digits
  if decimal.digits = 0 then .ofRatio negative 0 1
  else if 400 < order then .infinity negative
  else if order < -400 then .ofRatio negative 0 1
  else
    .ofRatio negative (decimal.digits * tenTo decimal.exponent.toNat)
      (tenTo (-decimal.exponent).toNat)

/-- Which of two equally near decimals is taken. -/
inductive Tie where
  | up
  | even
deriving DecidableEq

/-- The rounding interval of a positive binary value, over a common denominator: its ends, the value
itself, and whether the ends belong to it. -/
structure Interval where
  low : Nat
  value : Nat
  high : Nat
  denominator : Nat
  closed : Bool

/-- The interval of reals that round to `mantissa * 2 ^ power`. Below a power of two the next value
is only half as far. -/
def Interval.around (format : Format) (mantissa : Nat) (power : Int) : Interval :=
  let narrow := decide (mantissa = twoTo format.fraction ∧ format.leastPower < power)
  let scale := scaleByTwo 1 1 (2 - power)
  { low := (4 * mantissa - if narrow then 1 else 2) * scale.1
    value := 4 * mantissa * scale.1
    high := (4 * mantissa + 2) * scale.1
    denominator := scale.2
    closed := mantissa % 2 == 0 }

/-- Whether `digits * 10 ^ exponent` lies in the interval. -/
def Interval.holds (interval : Interval) (digits : Nat) (exponent : Int) : Bool :=
  let point := digits * tenTo exponent.toNat * interval.denominator
  let unit := tenTo (-exponent).toNat
  if interval.closed then
    decide (interval.low * unit ≤ point) && decide (point ≤ interval.high * unit)
  else decide (interval.low * unit < point) && decide (point < interval.high * unit)

/-- The exponent of the leading digit of `numerator / denominator`. -/
def leadingExponent (numerator denominator : Nat) : Int :=
  let guess : Int := (digitCount numerator : Int) - digitCount denominator
  if denominator * tenTo guess.toNat ≤ numerator * tenTo (-guess).toNat then guess else guess - 1

/-- The point of the grid with a given number of digits that reads back as the value and is nearest
to it, if the grid has one. -/
def Interval.onGrid (interval : Interval) (tie : Tie) (leading : Int) (count : Nat) :
    Option Decimal :=
  let exponent : Int := leading - count + 1
  let unit := interval.denominator * tenTo exponent.toNat
  let scaled := interval.value * tenTo (-exponent).toNat
  let below := scaled / unit
  match interval.holds below exponent, interval.holds (below + 1) exponent with
  | false, false => none
  | true, false => some ⟨below, exponent⟩
  | false, true => some ⟨below + 1, exponent⟩
  | true, true =>
    let twice := 2 * (scaled % unit)
    let upwards := decide (unit < twice) ||
      (decide (twice = unit) && (tie == .up || below % 2 == 1))
    some ⟨if upwards then below + 1 else below, exponent⟩

/-- A decimal without the zeros at the end of its digits, searching through `fuel` of them. -/
def Decimal.trimZeros : Nat → Decimal → Decimal
  | 0, decimal => decimal
  | fuel + 1, decimal =>
    if decimal.digits % 10 = 0 ∧ decimal.digits ≠ 0 then
      trimZeros fuel ⟨decimal.digits / 10, decimal.exponent + 1⟩
    else decimal

/-- The decimal with the fewest digits that reads back as `mantissa * 2 ^ power`, and the nearest of
those. Seventeen digits always suffice. -/
def shortest (format : Format) (tie : Tie) (mantissa : Nat) (power : Int) : Decimal :=
  if mantissa = 0 then ⟨0, 0⟩
  else
    let interval := Interval.around format mantissa power
    let leading := leadingExponent interval.value interval.denominator
    let found := (List.range 17).findSome? fun count => interval.onGrid tie leading (count + 1)
    (found.getD ⟨0, 0⟩).trimZeros 20

/-- How a number is laid out as text. -/
structure Style where
  /-- Whether a number whose leading digit has this exponent is written without an exponent. -/
  positional : Int → Bool
  /-- Whether a whole number written without an exponent ends in a point and a zero. -/
  pointZero : Bool
  /-- Which of two equally near decimals is written. -/
  tie : Tie

/-- A run of zeros. -/
def zeros (count : Nat) : String := String.ofList (List.replicate count '0')

/-- Digits with a point after the first `whole` of them, padded with zeros on either side. -/
def pointText (pointZero : Bool) (digits : String) (whole : Int) : String :=
  let length : Int := digits.length
  if whole ≤ 0 then "0." ++ zeros (-whole).toNat ++ digits
  else if length ≤ whole then
    digits ++ zeros (whole - length).toNat ++ if pointZero then ".0" else ""
  else
    String.ofList (digits.toList.take whole.toNat) ++ "." ++
      String.ofList (digits.toList.drop whole.toNat)

/-- Digits with a point after the first of them, and the exponent of that first digit. -/
def exponentText (digits : String) (leading : Int) : String :=
  let mantissa :=
    match digits.toList with
    | [] => ""
    | [digit] => String.ofList [digit]
    | digit :: rest => String.ofList (digit :: '.' :: rest)
  mantissa ++ "e" ++ toString leading

/-- The text of a decimal. -/
def Style.decimalText (style : Style) (decimal : Decimal) : String :=
  let digits := toString decimal.digits
  let leading : Int := decimal.exponent + digits.length - 1
  if decimal.digits = 0 then if style.pointZero then "0.0" else "0"
  else if style.positional leading then pointText style.pointZero digits (leading + 1)
  else exponentText digits leading

/-- The text of a binary value. -/
def Style.text (style : Style) (format : Format) : Datum → String
  | .nan => "NaN"
  | .infinite negative => if negative then "-inf" else "inf"
  | .finite negative mantissa power =>
    (if negative then "-" else "") ++ style.decimalText (shortest format style.tie mantissa power)

/-- Numbers as they are shown: always without an exponent. -/
def plain : Style := ⟨fun _ => true, false, .up⟩

/-- Numbers as they stand in source text: an exponent below a ten-thousandth and from ten to the
sixteenth on, and a point in every number without one. -/
def literalStyle : Style :=
  ⟨fun leading => decide (-4 ≤ leading) && decide (leading < 16), true, .up⟩

/-- The text of a double as it is shown. -/
def Double.text (value : Double) : String := plain.text double value.datum

/-- The text of a double as it stands in source text. -/
def Double.literal (value : Double) : String := literalStyle.text double value.datum

end Sbe.Number
