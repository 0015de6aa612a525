import Sbe.Text.Unprintable

/-!
**Quoted text.**

A text is written between double quotes, a character between single ones. The quote itself, the
backslash and the usual controls are escaped by a letter, characters without a glyph by their number
in braces. `unquote` reads such a literal back.
-/

namespace Sbe.Text

/-- A character by number: a backslash, the letter `u`, and hexadecimal digits in braces. -/
def numberEscape (character : Char) : List Char :=
  '\\' :: 'u' :: '\x7b' :: Nat.toDigits 16 character.toNat ++ ['\x7d']

/-- One character inside a literal delimited by `quote`. -/
def escapeChar (quote : Char) (character : Char) : List Char :=
  if character = '\x00' then ['\\', '0']
  else if character = '\t' then ['\\', 't']
  else if character = '\r' then ['\\', 'r']
  else if character = '\n' then ['\\', 'n']
  else if character = quote || character = '\\' then ['\\', character]
  else if isUnprintable character then numberEscape character
  else [character]

/-- A text as a literal in double quotes. -/
def quote (text : String) : String :=
  String.ofList ('"' :: text.toList.flatMap (escapeChar '"') ++ ['"'])

/-- A character as a literal in single quotes. -/
def quoteChar (character : Char) : String :=
  String.ofList ('\'' :: escapeChar '\'' character ++ ['\''])

/-- The value of a hexadecimal digit. -/
def hexValue? (digit : Char) : Option Nat :=
  if '0' ≤ digit ∧ digit ≤ '9' then some (digit.toNat - '0'.toNat)
  else if 'a' ≤ digit ∧ digit ≤ 'f' then some (digit.toNat - 'a'.toNat + 10)
  else if 'A' ≤ digit ∧ digit ≤ 'F' then some (digit.toNat - 'A'.toNat + 10)
  else none

/-- The character with a given number, if the number is a scalar value. -/
def scalar? (code : Nat) : Option Char :=
  if code.isValidChar then some (Char.ofNat code) else none

/-- The state of reading a literal: between characters, after a backslash, before the brace of a
number escape, or inside its digits. -/
inductive LiteralState where
  | plain
  | escaped
  | opening
  | number (value : Nat)

/-- Reads the inside of a literal up to its closing double quote, which must end the input. -/
def readLiteral : LiteralState → List Char → Option (List Char)
  | .plain, ['"'] => some []
  | .plain, character :: rest =>
    if character = '"' || character = '\n' then none
    else if character = '\\' then readLiteral .escaped rest
    else (readLiteral .plain rest).map (character :: ·)
  | .escaped, character :: rest =>
    match character with
    | '0' => (readLiteral .plain rest).map ('\x00' :: ·)
    | 't' => (readLiteral .plain rest).map ('\t' :: ·)
    | 'r' => (readLiteral .plain rest).map ('\r' :: ·)
    | 'n' => (readLiteral .plain rest).map ('\n' :: ·)
    | '\'' => (readLiteral .plain rest).map ('\'' :: ·)
    | '"' => (readLiteral .plain rest).map ('"' :: ·)
    | '\\' => (readLiteral .plain rest).map ('\\' :: ·)
    | 'u' => readLiteral .opening rest
    | _ => none
  | .opening, character :: rest =>
    if character = '\x7b' then readLiteral (.number 0) rest else none
  | .number value, character :: rest =>
    if character = '\x7d' then
      match scalar? value with
      | some scalar => (readLiteral .plain rest).map (scalar :: ·)
      | none => none
    else
      match hexValue? character with
      | some digit => readLiteral (.number (value * 16 + digit)) rest
      | none => none
  | _, [] => none

/-- The text that a literal in double quotes stands for. -/
def unquote (literal : String) : Option String :=
  match literal.toList with
  | '"' :: rest => (readLiteral .plain rest).map String.ofList
  | _ => none

end Sbe.Text
