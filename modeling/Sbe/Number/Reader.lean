import Sbe.Number.Decimal

/-!
**Numbers in text.**

An integer is an optional sign and decimal digits. A double is an optional sign and either a word
for infinity or for what is not a number, or digits with an optional point and an optional exponent;
it is rounded to the nearest value.
-/

namespace Sbe.Number

/-- The value of a run of decimal digits. -/
def digitsValue (digits : List Char) : Nat :=
  digits.foldl (fun value digit => value * 10 + (digit.toNat - '0'.toNat)) 0

/-- Whether the text starts with a minus sign, and the text after its sign. -/
def splitSign : List Char → Bool × List Char
  | '+' :: rest => (false, rest)
  | '-' :: rest => (true, rest)
  | rest => (false, rest)

/-- A number with the sign it was written with. -/
def withSign (negative : Bool) (size : Nat) : Int := if negative then -(size : Int) else size

/-- The integer that a whole text stands for. -/
def readInt? (text : List Char) : Option Int :=
  let (negative, digits) := splitSign text
  if digits.isEmpty || !digits.all Char.isDigit then none
  else some (withSign negative (digitsValue digits))

/-- The exponent that ends the text of a double; none is zero. -/
def readExponent? : List Char → Option Int
  | [] => some 0
  | mark :: rest => if mark = 'e' || mark = 'E' then readInt? rest else none

/-- The double that digits, a point and an exponent stand for. -/
def readDecimal? (negative : Bool) (text : List Char) : Option Double :=
  let whole := text.takeWhile Char.isDigit
  let (fraction, rest) :=
    match text.dropWhile Char.isDigit with
    | '.' :: rest => (rest.takeWhile Char.isDigit, rest.dropWhile Char.isDigit)
    | rest => ([], rest)
  if whole.isEmpty && fraction.isEmpty then none
  else
    (readExponent? rest).map fun exponent =>
      Decimal.toDouble ⟨digitsValue (whole ++ fraction), exponent - fraction.length⟩ negative

/-- The double that a whole text stands for. -/
def readDouble? (text : List Char) : Option Double :=
  let (negative, body) := splitSign text
  match String.ofList (body.map Char.toLower) with
  | "inf" | "infinity" => some (.infinity negative)
  | "nan" => some .nan
  | _ => readDecimal? negative body

end Sbe.Number
