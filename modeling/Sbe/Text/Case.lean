import Sbe.Text.Letter

/-!
**Letter case of characters and of words.**

A character maps to a sequence of characters, because some letters have no single counterpart. A
word maps character by character, except that a capital sigma at the end of a word becomes the final
form of the small letter.
-/

namespace Sbe.Text

/-- Whether a character is an upper case letter. -/
def isUpper (character : Char) : Bool := Letter.upperCase.has character.toNat

/-- Whether a character is a lower case letter. -/
def isLower (character : Char) : Bool := Letter.lowerCase.has character.toNat

/-- The mapping of one character under a table of sequences and a table of single images. -/
def mapCase (sequences : List (Nat × List Nat)) (images : List Run) (character : Char) :
    List Char :=
  match sequences.lookup character.toNat with
  | some codes => codes.map Char.ofNat
  | none =>
    match imageIn images character.toNat with
    | some code => [Char.ofNat code]
    | none => [character]

/-- A character in upper case. -/
def upper : Char → List Char := mapCase Letter.toUpperAlone (Letter.pairs.map Run.swap)

/-- A character in lower case, wherever it stands. -/
def lower : Char → List Char := mapCase Letter.toLowerAlone Letter.pairs

/-- A word in upper case. -/
def upperWord (word : List Char) : List Char := word.flatMap upper

/-- Whether a character is a letter that has a case. -/
def isCased (character : Char) : Bool :=
  isUpper character || isLower character || inStretches Letter.titleCase character.toNat

/-- Whether the first character that is not ignored when looking for a letter is one with case. -/
def meetsCased (characters : List Char) : Bool :=
  match characters.dropWhile fun character => inStretches Letter.caseIgnorable character.toNat with
  | [] => false
  | character :: _ => isCased character

/-- Lower case of the rest of a word, given the characters before it in reverse order. -/
def lowerAfter (before : List Char) : List Char → List Char
  | [] => []
  | character :: rest =>
    let mapped :=
      if character = 'Σ' then
        if meetsCased before && !meetsCased rest then ['ς'] else ['σ']
      else lower character
    mapped ++ lowerAfter (character :: before) rest

/-- A word in lower case; a capital sigma at its end takes the final form. -/
def lowerWord (word : List Char) : List Char := lowerAfter [] word

end Sbe.Text
