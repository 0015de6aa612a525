import Sbe.Outcome
import Sbe.Text.Quoted

/-!
**Why a codec refuses.**

Each cause is a constructor with what it is about.
-/

namespace Sbe

/-- Why a codec refuses to read or write. -/
inductive CodecError where
  | indexOutOfRange (field : String) (index length : Nat)
  | groupExhausted (group : String) (count : Nat)
  | countOutOfRange (group : String) (count least greatest : Nat)
  | lengthExceedsMaximum (field : String) (length greatest : Nat)
  | unknownEnumValue (typeName : String) (value : Int)
  | destinationTooSmall (field : String) (required available : Nat)
  | unrepresentable (charset : String) (character : Char)
deriving DecidableEq

namespace CodecError

/-- The sentence for a cause. -/
def message : CodecError → String
  | indexOutOfRange field index length =>
    "index out of range for " ++ field ++ ": index=" ++ toString index ++ ", length=" ++
      toString length
  | groupExhausted group count =>
    "no more repetitions in group " ++ group ++ ": count=" ++ toString count
  | countOutOfRange group count least greatest =>
    "count outside allowed range for group " ++ group ++ ": count=" ++ toString count ++ ", min=" ++
      toString least ++ ", max=" ++ toString greatest
  | lengthExceedsMaximum field length greatest =>
    "length > maxValue for " ++ field ++ ": length=" ++ toString length ++ ", max=" ++
      toString greatest
  | unknownEnumValue typeName value =>
    "unknown value " ++ toString value ++ " for enum " ++ typeName
  | destinationTooSmall field required available =>
    "destination too small for " ++ field ++ ": required=" ++ toString required ++
      ", available=" ++ toString available
  | unrepresentable charset character =>
    "character " ++ Text.quoteChar character ++ " cannot be encoded as " ++ charset

/-- The word for the kind of a cause. -/
def kind : CodecError → String
  | indexOutOfRange .. => "IndexOutOfRange"
  | groupExhausted .. => "GroupExhausted"
  | countOutOfRange .. => "CountOutOfRange"
  | lengthExceedsMaximum .. => "LengthExceedsMaximum"
  | unknownEnumValue .. => "UnknownEnumValue"
  | destinationTooSmall .. => "DestinationTooSmall"
  | unrepresentable .. => "Unrepresentable"

end CodecError

end Sbe
