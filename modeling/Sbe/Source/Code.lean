/-!
**Lines of source text.**

Generated source is a list of lines. Blocks indent what they hold, so every part is written as if it
stood at the left margin.
-/

namespace Sbe.Source

/-- Lines of source text, without their line ends. -/
abbrev Code := List String

namespace Code

/-- Lines one level further to the right; empty lines stay empty. -/
def indent (code : Code) : Code :=
  code.map fun line => if line.isEmpty then line else "    " ++ line

/-- Lines between braces, after a head. -/
def block (head : String) (body : Code) : Code :=
  (head ++ " \x7b") :: indent body ++ ["\x7d"]

/-- Lines after an empty one. -/
def spaced (code : Code) : Code := "" :: code

/-- A public function after an empty line. -/
def function (signature : String) (body : Code) : Code :=
  spaced (block ("pub fn " ++ signature) body)

/-- A public constant function after an empty line. -/
def constantFunction (signature : String) (body : Code) : Code :=
  spaced (block ("pub const fn " ++ signature) body)

/-- A public constant. -/
def constant (name type value : String) : String :=
  "pub const " ++ name ++ ": " ++ type ++ " = " ++ value ++ ";"

/-- Fields in braces on one line. -/
def braced (fields : String) : String := "\x7b " ++ fields ++ " \x7d"

/-- The text of the lines. -/
def text (code : Code) : String := String.intercalate "\n" code

end Code

end Sbe.Source
