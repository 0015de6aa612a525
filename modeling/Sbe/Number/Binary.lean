/-!
**Binary floating point numbers.**

A format is given by the widths of its two fields. `Format.datum` reads a bit pattern as an exact
value, `Format.round` writes the pattern nearest to an exact ratio. Everything between the two is
arithmetic on natural numbers, so a decimal can be compared with a binary value without loss.
-/

namespace Sbe.Number

/-- A binary interchange format: the widths of the fraction and exponent fields. -/
structure Format where
  fraction : Nat
  exponent : Nat

/-- The 32-bit format. -/
def single : Format := ⟨23, 8⟩

/-- The 64-bit format. -/
def double : Format := ⟨52, 11⟩

/-- What a bit pattern stands for; a finite value is `mantissa * 2 ^ power` with a sign. -/
inductive Datum where
  | nan
  | infinite (negative : Bool)
  | finite (negative : Bool) (mantissa : Nat) (power : Int)
deriving DecidableEq

/-- A power of two. -/
def twoTo (exponent : Nat) : Nat := Nat.pow 2 exponent

namespace Format

/-- The power of two that the last fraction bit of the smallest values stands for. -/
def leastPower (format : Format) : Int :=
  2 - (twoTo (format.exponent - 1) : Int) - format.fraction

/-- The exponent field of infinities and of what is not a number. -/
def topField (format : Format) : Nat := twoTo format.exponent - 1

/-- The bit pattern of positive infinity. -/
def infinity (format : Format) : Nat := format.topField * twoTo format.fraction

/-- The weight of the sign bit. -/
def signBit (format : Format) : Nat := twoTo (format.fraction + format.exponent)

/-- The value a bit pattern stands for. -/
def datum (format : Format) (bits : Nat) : Datum :=
  let negative := decide (bits / format.signBit % 2 = 1)
  let field := bits / twoTo format.fraction % twoTo format.exponent
  let fraction := bits % twoTo format.fraction
  if field = format.topField then if fraction = 0 then .infinite negative else .nan
  else if field = 0 then .finite negative fraction format.leastPower
  else .finite negative (twoTo format.fraction + fraction) (format.leastPower + (field - 1 : Nat))

end Format

/-- The ratio `numerator / denominator / 2 ^ power` as a pair of naturals. -/
def scaleByTwo (numerator denominator : Nat) (power : Int) : Nat × Nat :=
  (numerator * twoTo (-power).toNat, denominator * twoTo power.toNat)

/-- The integer nearest to a ratio, the even one of two equally near. -/
def roundHalfEven (numerator denominator : Nat) : Nat :=
  let floor := numerator / denominator
  let twice := 2 * (numerator % denominator)
  if twice < denominator then floor
  else if denominator < twice then floor + 1
  else floor + floor % 2

/-- The bit pattern, without a sign, of the value nearest to a ratio: ties go to the even mantissa
and what is too large becomes infinity. -/
def Format.round (format : Format) (numerator denominator : Nat) : Nat :=
  if numerator = 0 then 0
  else
    let guess : Int := (numerator.log2 : Int) - denominator.log2 - format.fraction
    let guessed := scaleByTwo numerator denominator guess
    let power := if guessed.1 / guessed.2 < twoTo format.fraction then guess - 1 else guess
    let power := max power format.leastPower
    let scaled := scaleByTwo numerator denominator power
    let mantissa := roundHalfEven scaled.1 scaled.2
    min ((power - format.leastPower).toNat * twoTo format.fraction + mantissa) format.infinity

end Sbe.Number
