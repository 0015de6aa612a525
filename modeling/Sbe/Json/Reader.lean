import Sbe.Json.Value
import Sbe.Text.Quoted
import Sbe.Number.Reader

/-!
**Reading JSON.**

The grammar is the strict one: no comments, no commas before a closing bracket, no leading zeros, no
controls inside strings, nothing but white space after the value. A reader takes the input and gives
the value with the input it has not read.
-/

namespace Sbe.Json

/-- The input after its leading white space. -/
def skipBlanks (input : List Char) : List Char :=
  input.dropWhile fun c => c == ' ' || c == '\t' || c == '\n' || c == '\r'

/-- The code unit of four hexadecimal digits. -/
def unit? (a b c d : Char) : Option Nat := do
  let a ← Text.hexValue? a
  let b ← Text.hexValue? b
  let c ← Text.hexValue? c
  let d ← Text.hexValue? d
  pure (((a * 16 + b) * 16 + c) * 16 + d)

/-- The character an escape letter stands for. -/
def letterEscape? : Char → Option Char
  | '"' => some '"'
  | '\\' => some '\\'
  | '/' => some '/'
  | 'b' => some '\x08'
  | 'f' => some '\x0c'
  | 'n' => some '\n'
  | 'r' => some '\r'
  | 't' => some '\t'
  | _ => none

/-- What stands between the quotes of a string: characters and code units given by number. -/
inductive Piece where
  | character (value : Char)
  | unit (code : Nat)

/-- Reads the pieces of a string up to its closing quote, given those before it in reverse order. -/
def readPieces (before : List Piece) : List Char → Option (List Piece × List Char)
  | [] => none
  | '"' :: rest => some (before.reverse, rest)
  | '\\' :: 'u' :: a :: b :: c :: d :: rest =>
    match unit? a b c d with
    | some code => readPieces (.unit code :: before) rest
    | none => none
  | '\\' :: letter :: rest =>
    match letterEscape? letter with
    | some character => readPieces (.character character :: before) rest
    | none => none
  | character :: rest =>
    if character.toNat < 0x20 || character = '\\' then none
    else readPieces (.character character :: before) rest

/-- The text of a list of pieces, given the characters before them in reverse order: two units of a
surrogate pair make one character, and half of a pair makes none. -/
def joinPieces (before : List Char) : List Piece → Option (List Char)
  | [] => some before.reverse
  | .character character :: rest => joinPieces (character :: before) rest
  | .unit high :: .unit low :: rest =>
    if 0xd800 ≤ high ∧ high ≤ 0xdbff then
      if 0xdc00 ≤ low ∧ low ≤ 0xdfff then
        joinPieces (Char.ofNat (0x10000 + (high - 0xd800) * 1024 + (low - 0xdc00)) :: before) rest
      else none
    else if 0xdc00 ≤ high ∧ high ≤ 0xdfff then none
    else joinPieces (Char.ofNat high :: before) (.unit low :: rest)
  | .unit code :: rest =>
    if 0xd800 ≤ code ∧ code ≤ 0xdfff then none else joinPieces (Char.ofNat code :: before) rest

/-- Reads a string after its opening quote. -/
def readString (input : List Char) : Option (Option String × List Char) :=
  (readPieces [] input).map fun (pieces, rest) => ((joinPieces [] pieces).map String.ofList, rest)

/-- Reads at least one digit. -/
def readDigits (input : List Char) : Option (List Char × List Char) :=
  match input.takeWhile Char.isDigit with
  | [] => none
  | digits => some (digits, input.dropWhile Char.isDigit)

/-- Reads an exponent after its mark. -/
def readPower (input : List Char) : Option ((Bool × Nat) × List Char) := do
  let (negative, input) := Number.splitSign input
  let (digits, rest) ← readDigits input
  pure ((negative, Number.digitsValue digits), rest)

/-- Reads the digits behind a point, if there is one. -/
def readFraction : List Char → Option (Option (List Char) × List Char)
  | '.' :: rest => (readDigits rest).map fun (digits, rest) => (some digits, rest)
  | rest => some (none, rest)

/-- Reads an exponent, if there is one. -/
def readExponent : List Char → Option (Option (Bool × Nat) × List Char)
  | 'e' :: rest => (readPower rest).map fun (power, rest) => (some power, rest)
  | 'E' :: rest => (readPower rest).map fun (power, rest) => (some power, rest)
  | rest => some (none, rest)

/-- Reads what may follow the whole part of a number. -/
def readNumberTail (negative : Bool) (whole : List Char) (input : List Char) :
    Option (Numeral × List Char) := do
  let (fraction, input) ← readFraction input
  let (exponent, input) ← readExponent input
  pure (⟨negative, whole, fraction, exponent⟩, input)

/-- Reads a number after its sign. A whole part of several digits does not start with zero. -/
def readUnsigned (negative : Bool) (input : List Char) : Option (Numeral × List Char) := do
  let (whole, rest) ← readDigits input
  match whole with
  | '0' :: _ :: _ => none
  | whole => readNumberTail negative whole rest

/-- Reads a number. -/
def readNumber : List Char → Option (Numeral × List Char)
  | '-' :: rest => readUnsigned true rest
  | rest => readUnsigned false rest

/-- Reads a fixed word. -/
def readWord : List Char → List Char → Option (List Char)
  | [], input => some input
  | letter :: word, character :: input => if letter = character then readWord word input else none
  | _ :: _, [] => none

mutual

/-- Reads a value; the fuel bounds the number of calls. -/
def readValue : Nat → List Char → Option (Value × List Char)
  | 0, _ => none
  | fuel + 1, input =>
    match skipBlanks input with
    | '"' :: rest => (readString rest).map fun (text, rest) => (.string text, rest)
    | '[' :: rest =>
      match skipBlanks rest with
      | ']' :: rest => some (.array [], rest)
      | rest => (readItems fuel [] rest).map fun (items, rest) => (.array items, rest)
    | '\x7b' :: rest =>
      match skipBlanks rest with
      | '\x7d' :: rest => some (.object [], rest)
      | rest => (readMembers fuel [] rest).map fun (members, rest) => (.object members, rest)
    | 'n' :: rest => (readWord ['u', 'l', 'l'] rest).map fun rest => (.null, rest)
    | 't' :: rest => (readWord ['r', 'u', 'e'] rest).map fun rest => (.bool true, rest)
    | 'f' :: rest => (readWord ['a', 'l', 's', 'e'] rest).map fun rest => (.bool false, rest)
    | rest => (readNumber rest).map fun (numeral, rest) => (.number numeral, rest)

/-- Reads the items of an array up to its closing bracket, given those before in reverse order. -/
def readItems : Nat → List Value → List Char → Option (List Value × List Char)
  | 0, _, _ => none
  | fuel + 1, before, input =>
    match readValue fuel input with
    | none => none
    | some (item, rest) =>
      match skipBlanks rest with
      | ',' :: rest => readItems fuel (item :: before) rest
      | ']' :: rest => some ((item :: before).reverse, rest)
      | _ => none

/-- Reads the members of an object up to its closing brace, given those before in reverse order. -/
def readMembers : Nat → List (Option String × Value) → List Char →
    Option (List (Option String × Value) × List Char)
  | 0, _, _ => none
  | fuel + 1, before, input =>
    match skipBlanks input with
    | '"' :: rest =>
      match readString rest with
      | none => none
      | some (key, rest) =>
        match skipBlanks rest with
        | ':' :: rest =>
          match readValue fuel rest with
          | none => none
          | some (value, rest) =>
            match skipBlanks rest with
            | ',' :: rest => readMembers fuel ((key, value) :: before) rest
            | '\x7d' :: rest => some (((key, value) :: before).reverse, rest)
            | _ => none
        | _ => none
    | _ => none

end

/-- The value of a whole text. -/
def parse (text : String) : Option Value :=
  let input := text.toList
  match readValue (2 * input.length + 1) input with
  | some (value, rest) => if (skipBlanks rest).isEmpty then some value else none
  | none => none

end Sbe.Json
