/-!
**Lines of a text.**

A line ends at a line feed, and a carriage return right before it belongs to the ending. A text that
does not end in a line feed has a last line without an ending, which keeps its carriage return.
-/

namespace Sbe.Text

/-- A reversed line without the carriage return of its ending. -/
def dropReturn : List Char → List Char
  | '\r' :: line => line
  | line => line

/-- Splits the rest of a text into lines, given the characters of the open line in reverse order. -/
def linesFrom : List Char → List Char → List String
  | [], [] => []
  | line, [] => [String.ofList line.reverse]
  | line, '\n' :: rest => String.ofList (dropReturn line).reverse :: linesFrom [] rest
  | line, character :: rest => linesFrom (character :: line) rest

/-- The lines of a text without their endings. -/
def lines (text : String) : List String := linesFrom [] text.toList

end Sbe.Text
