import Sbe.Text.Range

/-!
**White space, as the Unicode standard tabulates it.**
-/

namespace Sbe.Text

/-- The property White_Space. -/
def blank : List Nat := [9, 5, 18, 1, 100, 1, 26, 1, 5599, 1, 2431, 11, 29, 2, 5, 1, 47, 1, 4000, 1]

/-- Whether a character is white space. -/
def isBlank (character : Char) : Bool := inStretches blank character.toNat

/-- The text without the white space around it. -/
def trim (text : String) : List Char :=
  ((text.toList.dropWhile isBlank).reverse.dropWhile isBlank).reverse

end Sbe.Text
