import Sbe.Error
import Sbe.Settings
import Sbe.Text.Case

/-!
**Names in generated source.**

A schema element gets a name in snake case for its accessors and its unit, in capitals for its
constants, and in pascal case for its types. A name that becomes a reserved word gets the configured
token appended, or is refused without one.
-/

namespace Sbe.Name

open Sbe.Text

/-- The words that generated source may not use as names. -/
def reservedWords : List String :=
  ["as", "break", "const", "continue", "crate", "else", "enum", "extern", "false", "fn", "for",
    "if", "impl", "in", "let", "loop", "match", "mod", "move", "mut", "pub", "ref", "return",
    "self", "Self", "static", "struct", "super", "trait", "true", "type", "unsafe", "use", "where",
    "while", "async", "await", "dyn", "abstract", "become", "box", "do", "final", "macro",
    "override", "priv", "typeof", "unsized", "virtual", "yield", "try"]

/-- Whether a name is a reserved word. -/
def isReserved (name : String) : Bool := reservedWords.contains name

/-- Whether an identifier may start with a character: an ASCII letter or an underscore. -/
def startsIdentifier (character : Char) : Bool := character.isAlpha || character == '_'

/-- Whether an identifier may go on with a character: an ASCII letter, a digit or an underscore. -/
def continuesIdentifier (character : Char) : Bool := character.isAlphanum || character == '_'

/-- Whether a name is an identifier. -/
def isIdentifier (name : String) : Bool :=
  match name.toList with
  | [] => false
  | first :: rest => startsIdentifier first && rest.all continuesIdentifier

/-! ### Pascal case -/

/-- A word with its first letter in upper case, and the rest in lower case if asked for. -/
def capitalize (lowerRest : Bool) : List Char → List Char
  | [] => []
  | first :: rest => upper first ++ if lowerRest then lowerWord rest else rest

/-- Whether a word is the same in upper case. -/
def isAllUpper (word : List Char) : Bool := word == upperWord word

/-- The words between underscores, given the open word in reverse order. -/
def wordsFrom (word : List Char) : List Char → List (List Char)
  | [] => [word.reverse]
  | character :: rest =>
    if character = '_' then word.reverse :: wordsFrom [] rest
    else wordsFrom (character :: word) rest

/-- A name in pascal case. Underscores separate words, and a word in capitals keeps only the first
of them; a name without underscores that is more than one byte long follows the same rule. -/
def pascalCase (name : String) : String :=
  let characters := name.toList
  String.ofList <|
    if characters.contains '_' then
      ((wordsFrom [] characters).filter fun word => !word.isEmpty).flatMap fun word =>
        capitalize (isAllUpper word) word
    else capitalize (decide (1 < name.utf8ByteSize) && isAllUpper characters) characters

/-! ### Snake case -/

/-- Whether a capital gets an underscore before it: not after an underscore, and inside a run of
capitals only where the next letter is small. -/
def startsWord (before : Option Char) (after : List Char) : Bool :=
  match before with
  | none => false
  | some before =>
    before != '_' && (!isUpper before ||
      match after with
      | [] => false
      | next :: _ => isLower next)

/-- The rest of a name in snake case, given the character before it. -/
def snakeAfter (before : Option Char) : List Char → List Char
  | [] => []
  | character :: rest =>
    let piece :=
      if isUpper character then
        (if startsWord before rest then ['_'] else []) ++ lower character
      else [character]
    piece ++ snakeAfter (some character) rest

/-- A name in snake case; capitals in a row stay together. -/
def snakeCase (name : String) : String := String.ofList (snakeAfter none name.toList)

/-- A name in snake case, in capitals. -/
def upperSnakeCase (name : String) : String :=
  String.ofList (upperWord (snakeCase name).toList)

/-! ### Names of generated items -/

/-- The name of the codec of a type. -/
def codecName (typeName suffix : String) : String := pascalCase typeName ++ suffix

/-- The name of the unit that holds a type. -/
def unitName (typeName : String) : String := snakeCase typeName

end Sbe.Name

namespace Sbe.Settings

open Sbe.Name

/-- A formatted name that is no reserved word, with the configured token appended if need be. -/
def escape (settings : Settings) (formatted name : String) : Result String :=
  if isReserved formatted then
    match settings.keywordAppendToken with
    | some token =>
      if token.isEmpty then .refuse (.reservedWord name) else .ok (formatted ++ token)
    | none => .refuse (.reservedWord name)
  else .ok formatted

/-- The accessor name of a schema element. -/
def propertyName (settings : Settings) (name : String) : Result String :=
  settings.escape (snakeCase name) name

/-- The name of a type or of an enum variant. -/
def typeName (settings : Settings) (name : String) : Result String :=
  settings.escape (pascalCase name) name

end Sbe.Settings
