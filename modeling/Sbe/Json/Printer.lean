import Sbe.Json.Value
import Sbe.Number.Decimal

/-!
**Writing JSON.**

The compact form has no white space. The spread form puts every item and every member on a line of
its own, two blanks deeper than its bracket; an empty array or object stays on one line.
-/

namespace Sbe.Json

open Sbe.Number

/-- One character inside a string: the quote, the backslash and the controls are escaped. -/
def escape (character : Char) : List Char :=
  if character = '"' then ['\\', '"']
  else if character = '\\' then ['\\', '\\']
  else if character = '\x08' then ['\\', 'b']
  else if character = '\t' then ['\\', 't']
  else if character = '\n' then ['\\', 'n']
  else if character = '\x0c' then ['\\', 'f']
  else if character = '\r' then ['\\', 'r']
  else if character.toNat < 0x20 then
    '\\' :: 'u' :: '0' :: '0' :: Nat.digitChar (character.toNat / 16) ::
      [Nat.digitChar (character.toNat % 16)]
  else [character]

/-- A text between quotes. -/
def quoted (text : String) : String := String.ofList ('"' :: text.toList.flatMap escape ++ ['"'])

/-- The numeral of a decimal: an exponent below a hundred-thousandth and from ten to the sixteenth
on, and a point in every other number. -/
def Numeral.ofDecimal (negative : Bool) (decimal : Decimal) : Numeral :=
  let digits := (toString decimal.digits).toList
  let leading : Int := decimal.exponent + digits.length - 1
  if decimal.digits = 0 then ⟨negative, ['0'], some ['0'], none⟩
  else if leading < -5 ∨ 16 ≤ leading then
    let fraction := if digits.length = 1 then none else some (digits.drop 1)
    ⟨negative, digits.take 1, fraction, some (decide (leading < 0), leading.natAbs)⟩
  else if leading < 0 then
    ⟨negative, ['0'], some (List.replicate (-leading - 1).toNat '0' ++ digits), none⟩
  else
    let whole := (leading + 1).toNat
    let fraction := digits.drop whole
    ⟨negative, digits.take whole ++ List.replicate (whole - digits.length) '0',
      some (if fraction.isEmpty then ['0'] else fraction), none⟩

/-- A double; what is not finite is null. -/
def Value.double (value : Double) : Value :=
  match value.datum with
  | .finite negative mantissa power =>
    .number (.ofDecimal negative (shortest Number.double .even mantissa power))
  | _ => .null

/-- The text of a numeral; an exponent always has a sign. -/
def Numeral.text (numeral : Numeral) : String :=
  let fraction :=
    match numeral.fraction with
    | none => ""
    | some digits => "." ++ String.ofList digits
  let exponent :=
    match numeral.exponent with
    | none => ""
    | some (negative, size) => "e" ++ (if negative then "-" else "+") ++ toString size
  (if numeral.negative then "-" else "") ++ String.ofList numeral.whole ++ fraction ++ exponent

/-- Pieces of text with a separator between them. -/
def separated (separator : String) : List String → String
  | [] => ""
  | [piece] => piece
  | piece :: rest => piece ++ separator ++ separated separator rest

mutual

/-- The compact text of a value. -/
def Value.compact : Value → String
  | .null => "null"
  | .bool true => "true"
  | .bool false => "false"
  | .number numeral => numeral.text
  | .string text => quoted (text.getD "")
  | .array items => "[" ++ separated "," (compactItems items) ++ "]"
  | .object members => "\x7b" ++ separated "," (compactMembers members) ++ "\x7d"

/-- The compact texts of the items of an array. -/
def compactItems : List Value → List String
  | [] => []
  | item :: rest => item.compact :: compactItems rest

/-- The compact texts of the members of an object. -/
def compactMembers : List (Option String × Value) → List String
  | [] => []
  | (key, value) :: rest => (quoted (key.getD "") ++ ":" ++ value.compact) :: compactMembers rest

end

/-- Pieces on lines of their own between two brackets, indented by `depth` levels. -/
def spreadLines (depth : Nat) (first last : String) (pieces : List String) : String :=
  let blanks (depth : Nat) := String.ofList (List.replicate (2 * depth) ' ')
  match pieces with
  | [] => first ++ last
  | pieces =>
    first ++ "\n" ++ blanks (depth + 1) ++
      separated (",\n" ++ blanks (depth + 1)) pieces ++ "\n" ++ blanks depth ++ last

mutual

/-- The spread text of a value that stands `depth` levels deep. -/
def Value.spreadAt (depth : Nat) : Value → String
  | .array items => spreadLines depth "[" "]" (spreadItems (depth + 1) items)
  | .object members => spreadLines depth "\x7b" "\x7d" (spreadMembers (depth + 1) members)
  | .null => "null"
  | .bool true => "true"
  | .bool false => "false"
  | .number numeral => numeral.text
  | .string text => quoted (text.getD "")

/-- The spread texts of the items of an array. -/
def spreadItems (depth : Nat) : List Value → List String
  | [] => []
  | item :: rest => item.spreadAt depth :: spreadItems depth rest

/-- The spread texts of the members of an object. -/
def spreadMembers (depth : Nat) : List (Option String × Value) → List String
  | [] => []
  | (key, value) :: rest =>
    (quoted (key.getD "") ++ ": " ++ value.spreadAt depth) :: spreadMembers depth rest

end

/-- The spread text of a value. -/
def Value.spread (value : Value) : String := value.spreadAt 0

end Sbe.Json
