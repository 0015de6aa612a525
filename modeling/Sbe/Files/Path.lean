/-!
**Paths.**

A path is a text of steps between slashes. It starts at the root when its first character is a
slash, and at a working folder otherwise. A step names a folder or file, goes to the parent folder,
or stays.
-/

namespace Sbe.Files

/-- The steps of a path, and whether it starts at the root. -/
structure Path where
  absolute : Bool
  steps : List String
deriving DecidableEq

/-- The parts of a text between slashes, given the open part in reverse order. -/
def partsFrom (part : List Char) : List Char → List String
  | [] => [String.ofList part.reverse]
  | character :: rest =>
    if character = '/' then String.ofList part.reverse :: partsFrom [] rest
    else partsFrom (character :: part) rest

/-- The beginnings of a list of steps that are neither empty nor the whole list, longest first. -/
def beginnings : List String → List (List String)
  | [] => []
  | [_] => []
  | step :: rest => (beginnings rest).map (step :: ·) ++ [[step]]

namespace Path

/-- The path that a text writes. -/
def ofText (text : String) : Path :=
  ⟨text.toList.head? == some '/', partsFrom [] text.toList⟩

/-- Whether a step stays in its folder. -/
def isIdle (step : String) : Bool := step == "" || step == "."

/-- Whether a step can name a file or a folder: it moves, and has at most 255 bytes. -/
def isName (step : String) : Bool :=
  !isIdle step && step != ".." && decide (step.utf8ByteSize ≤ 255)

/-- Whether a text can be the path of anything: it has no NUL and at most 4095 bytes. -/
def isUsable (text : String) : Bool :=
  !text.toList.contains '\x00' && decide (text.utf8ByteSize ≤ 4095)

/-- The path of a name inside the folder of the given path. -/
def inside (folder name : String) : String :=
  if name.toList.head? == some '/' || folder.isEmpty then name
  else if folder.toList.getLast? == some '/' then folder ++ name
  else folder ++ "/" ++ name

/-- The paths of the folders around what a path leads to, from the inside out. Idle steps fall away,
so a path that ends in one has the same folders around it as the path without. -/
def around (text : String) : List String :=
  let path := ofText text
  (beginnings (path.steps.filter fun step => !isIdle step)).map fun steps =>
    (if path.absolute then "/" else "") ++ String.intercalate "/" steps

end Path

end Sbe.Files
