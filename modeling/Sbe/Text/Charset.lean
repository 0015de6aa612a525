import Sbe.Text.Blank
import Sbe.Text.Utf8

/-!
**Character sets of text on the wire.**

A set is chosen by one of its names, whatever their case. Encoding fails at the first character the
set does not hold; decoding always succeeds, with a replacement character for what stands for
nothing.
-/

namespace Sbe.Text

/-- The character sets of fixed and of variable text. -/
inductive Charset where
  | ascii
  | utf8
  | latin1
deriving DecidableEq

namespace Charset

/-- An ASCII letter in upper case, and any other character unchanged. -/
def upperAscii (character : Char) : Char :=
  if 'a' ≤ character ∧ character ≤ 'z' then Char.ofNat (character.toNat - 32) else character

/-- The set with a given name; case and surrounding white space do not matter. -/
def ofName? (name : String) : Option Charset :=
  match String.ofList ((trim name).map upperAscii) with
  | "ASCII" | "US-ASCII" => some .ascii
  | "UTF-8" | "UTF8" => some .utf8
  | "ISO-8859-1" | "ISO_8859_1" | "LATIN1" | "LATIN-1" => some .latin1
  | _ => none

/-- The canonical name of a set. -/
def name : Charset → String
  | .ascii => "US-ASCII"
  | .utf8 => "UTF-8"
  | .latin1 => "ISO-8859-1"

/-- The one-byte form of characters up to `limit`, or the first character past it. -/
def encodeUpTo (limit : Nat) : List Char → Except Char (List UInt8)
  | [] => .ok []
  | character :: rest =>
    if character.toNat ≤ limit then
      (encodeUpTo limit rest).map (UInt8.ofNat character.toNat :: ·)
    else .error character

/-- The bytes of a text, or the first character the set does not hold. -/
def encode : Charset → String → Except Char (List UInt8)
  | .utf8, text => .ok (Utf8.encode text.toList)
  | .ascii, text => encodeUpTo 0x7f text.toList
  | .latin1, text => encodeUpTo 0xff text.toList

/-- The character of one byte in the ASCII set. -/
def decodeAscii (byte : UInt8) : Char :=
  if byte < 0x80 then Char.ofNat byte.toNat else Utf8.replacement

/-- The text of a sequence of bytes. -/
def decode : Charset → List UInt8 → String
  | .utf8, bytes => String.ofList (Utf8.decode bytes)
  | .ascii, bytes => String.ofList (bytes.map decodeAscii)
  | .latin1, bytes => String.ofList (bytes.map fun byte => Char.ofNat byte.toNat)

end Charset

/-- The bytes before the first NUL. -/
def beforeNul (bytes : List UInt8) : List UInt8 := bytes.takeWhile (· ≠ 0)

end Sbe.Text
