import Sbe.Error
import Sbe.Settings
import Sbe.Text.Quoted

/-!
**Reading settings.**

A settings document is a list of lines `key = value` with comments and empty lines between them.
Every setting is a flag or a text, so tables, arrays, numbers and dates have no place in it. A text
is written in double quotes with escapes or in single quotes without, and in three quotes it may
hold line breaks.
-/

namespace Sbe.Settings

/-- Whether a character is a space or a tab. -/
def isSpace (character : Char) : Bool := character == ' ' || character == '\t'

/-- Whether a character may not stand in a text or comment: a control other than a tab. -/
def isForbidden (character : Char) : Bool :=
  character != '\t' && (decide (character.toNat < 0x20) || character == '\x7f')

/-- The input after a line break. -/
def lineBreak? : List Char → Option (List Char)
  | '\n' :: rest => some rest
  | '\r' :: '\n' :: rest => some rest
  | _ => none

/-- The input after the rest of a line that holds nothing but a comment. -/
def lineEnd? (input : List Char) : Option (List Char) :=
  let input :=
    match input.dropWhile isSpace with
    | '#' :: rest => rest.dropWhile fun character => !isForbidden character
    | rest => rest
  if input.isEmpty then some [] else lineBreak? input

/-! ### Texts -/

/-- The value of hexadecimal digits. -/
def hexNumber? (digits : List Char) : Option Nat :=
  digits.foldlM (fun value digit => (Text.hexValue? digit).map (value * 16 + ·)) 0

/-- The character whose number is given by hexadecimal digits of a fixed count, and the input after
them. -/
def numberEscape? (count : Nat) (input : List Char) : Option (Char × List Char) :=
  if (input.take count).length = count then do
    let character ← (hexNumber? (input.take count)).bind Text.scalar?
    some (character, input.drop count)
  else none

/-- The character that an escape stands for, and the input after it; the backslash has been read. -/
def escape? : List Char → Option (Char × List Char)
  | [] => none
  | letter :: rest =>
    match letter with
    | 'b' => some ('\x08', rest)
    | 't' => some ('\t', rest)
    | 'n' => some ('\n', rest)
    | 'f' => some ('\x0c', rest)
    | 'r' => some ('\r', rest)
    | 'e' => some ('\x1b', rest)
    | '"' => some ('"', rest)
    | '\\' => some ('\\', rest)
    | 'x' => numberEscape? 2 rest
    | 'u' => numberEscape? 4 rest
    | 'U' => numberEscape? 8 rest
    | _ => none

theorem numberEscape?_length {count : Nat} {input rest : List Char} {character : Char}
    (found : numberEscape? count input = some (character, rest)) :
    rest.length ≤ input.length := by
  unfold numberEscape? at found
  split at found
  · obtain ⟨_, _, same⟩ := Option.bind_eq_some_iff.mp found
    cases same
    simp
  · cases found

theorem escape?_length {input rest : List Char} {character : Char}
    (found : escape? input = some (character, rest)) : rest.length ≤ input.length := by
  unfold escape? at found
  split at found
  · cases found
  · simp only [List.length_cons]
    split at found
    case h_9 => exact Nat.le_succ_of_le (numberEscape?_length found)
    case h_10 => exact Nat.le_succ_of_le (numberEscape?_length found)
    case h_11 => exact Nat.le_succ_of_le (numberEscape?_length found)
    case h_12 => cases found
    all_goals
      cases found
      omega

/-- Reads a text on one line up to its closing double quote, given what stands before in reverse
order. -/
def readBasic (before : List Char) (input : List Char) : Option (String × List Char) :=
  match input with
  | [] => none
  | '"' :: rest => some (String.ofList before.reverse, rest)
  | '\\' :: rest =>
    match found : escape? rest with
    | some (character, after) =>
      have := escape?_length found
      readBasic (character :: before) after
    | none => none
  | character :: rest =>
    if isForbidden character then none else readBasic (character :: before) rest
termination_by input.length
decreasing_by all_goals simp only [List.length_cons]; omega

/-- Reads a text on one line up to its closing single quote. -/
def readLiteral (input : List Char) : Option (String × List Char) :=
  let inside := input.takeWhile (· ≠ '\'')
  match input.dropWhile (· ≠ '\'') with
  | [] => none
  | _ :: rest => if inside.any isForbidden then none else some (String.ofList inside, rest)

/-- The input after spaces and line breaks. -/
def skipLines : List Char → List Char
  | ' ' :: rest => skipLines rest
  | '\t' :: rest => skipLines rest
  | '\n' :: rest => skipLines rest
  | '\r' :: '\n' :: rest => skipLines rest
  | rest => rest

/-- The input after a line break and the spaces around it, which a backslash at the end of a line
takes out of a text. -/
def joinedLine? (input : List Char) : Option (List Char) :=
  (lineBreak? (input.dropWhile isSpace)).map skipLines

theorem lineBreak?_length {input rest : List Char} (found : lineBreak? input = some rest) :
    rest.length ≤ input.length := by
  unfold lineBreak? at found
  split at found <;> cases found <;> simp only [List.length_cons] <;> omega

theorem skipLines_length (input : List Char) : (skipLines input).length ≤ input.length := by
  fun_induction skipLines input with
  | case1 rest ih | case2 rest ih | case3 rest ih => exact Nat.le_succ_of_le ih
  | case4 rest ih => exact Nat.le_succ_of_le (Nat.le_succ_of_le ih)
  | case5 => exact Nat.le_refl _

theorem joinedLine?_length {input rest : List Char} (found : joinedLine? input = some rest) :
    rest.length ≤ input.length := by
  obtain ⟨after, broken, same⟩ := Option.map_eq_some_iff.mp found
  have first := lineBreak?_length broken
  have blank := (List.dropWhile_sublist (l := input) isSpace).length_le
  subst same
  have short := skipLines_length after
  omega

/-- The end of a text in three quotes: up to two more quotes before the closing three belong to
it. -/
def closeLong (quote : Char) (before rest : List Char) : String × List Char :=
  let extra := (rest.take 2).takeWhile (· = quote)
  (String.ofList (before.reverse ++ extra), rest.drop extra.length)

/-- Reads a text up to its closing three double quotes, given what stands before in reverse
order. -/
def readLongBasic (before : List Char) (input : List Char) : Option (String × List Char) :=
  match input with
  | [] => none
  | '"' :: '"' :: '"' :: rest => some (closeLong '"' before rest)
  | '\r' :: '\n' :: rest => readLongBasic ('\n' :: '\r' :: before) rest
  | '\\' :: rest =>
    match joined : joinedLine? rest with
    | some after =>
      have := joinedLine?_length joined
      readLongBasic before after
    | none =>
      match found : escape? rest with
      | some (character, after) =>
        have := escape?_length found
        readLongBasic (character :: before) after
      | none => none
  | character :: rest =>
    if isForbidden character && character != '\n' then none
    else readLongBasic (character :: before) rest
termination_by input.length
decreasing_by all_goals simp only [List.length_cons]; omega

/-- Reads a text up to its closing three single quotes, given what stands before in reverse
order. -/
def readLongLiteral (before : List Char) : List Char → Option (String × List Char)
  | [] => none
  | '\'' :: '\'' :: '\'' :: rest => some (closeLong '\'' before rest)
  | '\r' :: '\n' :: rest => readLongLiteral ('\n' :: '\r' :: before) rest
  | character :: rest =>
    if isForbidden character && character != '\n' then none
    else readLongLiteral (character :: before) rest

/-- The input after a line break that stands first, which a text in three quotes does not keep. -/
def withoutFirstBreak (input : List Char) : List Char := (lineBreak? input).getD input

/-! ### Entries -/

/-- The value of a setting. -/
inductive SettingValue where
  | flag (value : Bool)
  | text (value : String)
deriving DecidableEq

/-- Reads a value. -/
def readValue : List Char → Option (SettingValue × List Char)
  | '"' :: '"' :: '"' :: rest =>
    (readLongBasic [] (withoutFirstBreak rest)).map fun (text, rest) => (.text text, rest)
  | '"' :: rest => (readBasic [] rest).map fun (text, rest) => (.text text, rest)
  | '\'' :: '\'' :: '\'' :: rest =>
    (readLongLiteral [] (withoutFirstBreak rest)).map fun (text, rest) => (.text text, rest)
  | '\'' :: rest => (readLiteral rest).map fun (text, rest) => (.text text, rest)
  | 't' :: 'r' :: 'u' :: 'e' :: rest => some (.flag true, rest)
  | 'f' :: 'a' :: 'l' :: 's' :: 'e' :: rest => some (.flag false, rest)
  | _ => none

/-- Whether a character may stand in a key without quotes. -/
def isKeyCharacter (character : Char) : Bool :=
  character.isAlphanum || character == '_' || character == '-'

/-- Reads a key. -/
def readKey : List Char → Option (String × List Char)
  | '"' :: rest => readBasic [] rest
  | '\'' :: rest => readLiteral rest
  | input =>
    match input.takeWhile isKeyCharacter with
    | [] => none
    | key => some (String.ofList key, input.dropWhile isKeyCharacter)

/-- Reads one entry, and the line it stands on to its end. -/
def readEntry (input : List Char) : Option ((String × SettingValue) × List Char) := do
  let (key, input) ← readKey input
  match input.dropWhile isSpace with
  | '=' :: input =>
    let (value, input) ← readValue (input.dropWhile isSpace)
    let rest ← lineEnd? input
    pure ((key, value), rest)
  | _ => none

/-- Reads all entries; the fuel bounds the number of lines. -/
def readEntries : Nat → List Char → Option (List (String × SettingValue))
  | 0, input => if input.isEmpty then some [] else none
  | fuel + 1, input =>
    if input.isEmpty then some []
    else
      match lineEnd? input with
      | some rest => readEntries fuel rest
      | none => do
        let (entry, rest) ← readEntry (input.dropWhile isSpace)
        (readEntries fuel rest).map (entry :: ·)

/-! ### Settings -/

/-- Sets the setting of a key; nothing for an unknown key and for a value of the wrong kind. -/
def set? (settings : Settings) (key : String) (value : SettingValue) : Option Settings :=
  match key, value with
  | "decode-unknown-enum-values", .flag on => some { settings with decodeUnknownEnumValues := on }
  | "generate-interfaces", .flag on => some { settings with generateInterfaces := on }
  | "keyword-append-token", .text token => some { settings with keywordAppendToken := some token }
  | "runtime-crate", .text path => some { settings with supportPath := path }
  | "read-only-buffer", .text path => some { settings with readBuffer := path }
  | "mutable-buffer", .text path => some { settings with writeBuffer := path }
  | _, _ => none

/-- The input without the mark that may open a text. -/
def withoutMark : List Char → List Char
  | '\ufeff' :: rest => rest
  | input => input

/-- The settings of a document. A key may stand in it once. -/
def ofText? (text : String) : Option Settings := do
  let input := withoutMark text.toList
  let entries ← readEntries (input.length + 1) input
  if (entries.map Prod.fst).Nodup then
    entries.foldlM (fun settings entry => settings.set? entry.1 entry.2) {}
  else none

/-- The settings of a document, refused when it is not one. -/
def parse (text : String) : Result Settings := .ofOption .settings (ofText? text)

end Sbe.Settings
