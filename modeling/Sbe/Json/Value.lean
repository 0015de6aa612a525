import Sbe.Number.Double

/-!
**JSON values.**

A value keeps what the text says and leaves its meaning to the reader of the value. A number keeps
its digits, because whether they are an integer, a double or out of range depends on what is asked
for. A string whose escapes leave half of a surrogate pair stands for no text; it may be skipped but
not used.
-/

namespace Sbe.Json

/-- A number as it is written. -/
structure Numeral where
  negative : Bool
  whole : List Char
  /-- The digits after the point; nothing when there is no point. -/
  fraction : Option (List Char)
  /-- The exponent and whether it is negative; nothing when there is none. -/
  exponent : Option (Bool × Nat)
deriving DecidableEq

/-- A JSON value. A string or a key is nothing when it stands for no text. -/
inductive Value where
  | null
  | bool (value : Bool)
  | number (numeral : Numeral)
  | string (text : Option String)
  | array (items : List Value)
  | object (members : List (Option String × Value))

namespace Value

/-- A string. -/
def text (value : String) : Value := .string (some value)

/-- An integer. -/
def int (value : Int) : Value :=
  .number ⟨decide (value < 0), (toString value.natAbs).toList, none, none⟩

/-- An object with the given members, in their order. -/
def record (members : List (String × Value)) : Value :=
  .object (members.map fun member => (some member.1, member.2))

/-- The member of an object under a key, the first if there are several. -/
def get? (value : Value) (key : String) : Option Value :=
  match value with
  | .object members => members.lookup (some key)
  | _ => none

end Value

end Sbe.Json
