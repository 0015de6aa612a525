import Sbe.Files.Path

/-!
**Trees of folders and files.**

A tree says which folders there are and what each file holds. A path leads through folders that are
there, also where it then goes back to a parent. Reading and writing give nothing when they cannot
be done; making a folder says what stood in its way.
-/

namespace Sbe.Files

/-- The names from the root of a tree down to one of its folders or files. -/
abbrev Place := List String

/-- A tree of folders and files. The root is always a folder. -/
structure Tree where
  folders : List Place := []
  files : List (Place × String) := []
deriving DecidableEq

/-- Why a walk stops at a step: there is no such folder, or there cannot be one. -/
inductive Obstacle where
  | missing
  | barred
deriving DecidableEq

/-- What comes of making a folder. -/
inductive Making where
  /-- The folder is new. -/
  | made
  /-- The folder was there. -/
  | present
  /-- A folder on the way is missing. -/
  | missing
  /-- A file is in the way, or the path is no path for a folder. -/
  | refused
deriving DecidableEq

namespace Making

/-- Whether the folder is there afterwards. -/
def isThere : Making → Bool
  | made | present => true
  | missing | refused => false

end Making

namespace Tree

/-- Whether a place is a folder. -/
def hasFolder (tree : Tree) (place : Place) : Bool := place.isEmpty || tree.folders.contains place

/-- What the file at a place holds. -/
def content? (tree : Tree) (place : Place) : Option String :=
  (tree.files.find? fun file => file.1 == place).map Prod.snd

/-- Whether nothing is at the place of a name and something can be put there. -/
def isFree (tree : Tree) (folder : Place) (name : String) : Bool :=
  Path.isName name && (tree.content? (folder ++ [name])).isNone &&
    !tree.hasFolder (folder ++ [name])

/-- The folder that steps lead to from a folder. -/
def walk (tree : Tree) (place : Place) : List String → Except Obstacle Place
  | [] => .ok place
  | step :: rest =>
    if Path.isIdle step then tree.walk place rest
    else if step = ".." then tree.walk place.dropLast rest
    else if tree.hasFolder (place ++ [step]) then tree.walk (place ++ [step]) rest
    else .error (if tree.isFree place step then .missing else .barred)

/-- The folder that a path starts from. -/
def start (working : Place) (path : Path) : Place := if path.absolute then [] else working

/-- The place of the file that a path names; the folders on the way must be there. -/
def filePlace (tree : Tree) (working : Place) (text : String) : Option Place :=
  let path := Path.ofText text
  match path.steps.getLast? with
  | none => none
  | some name =>
    if Path.isUsable text && Path.isName name then
      match tree.walk (start working path) path.steps.dropLast with
      | .ok folder => some (folder ++ [name])
      | .error _ => none
    else none

/-- What the file at a path holds. -/
def read (tree : Tree) (working : Place) (path : String) : Option String :=
  (tree.filePlace working path).bind tree.content?

/-- Files with one of them holding a new content, added at the end if it was not there. -/
def setContent (place : Place) (content : String) : List (Place × String) → List (Place × String)
  | [] => [(place, content)]
  | file :: rest =>
    if file.1 = place then (place, content) :: rest else file :: setContent place content rest

/-- The tree after writing a file. -/
def write (tree : Tree) (working : Place) (path content : String) : Option Tree := do
  let place ← tree.filePlace working path
  if tree.hasFolder place then none
  else some { tree with files := setContent place content tree.files }

/-- Makes the folder that the last of some steps names, given the steps in reverse order. A last
step that names nothing leads to a folder that is there if the way to it is. -/
def makeLast (tree : Tree) (place : Place) : List String → Making × Tree
  | [] => (.present, tree)
  | name :: before =>
    match tree.walk place before.reverse with
    | .error .missing => (.missing, tree)
    | .error .barred => (.refused, tree)
    | .ok folder =>
      if name = "." || name = ".." || tree.hasFolder (folder ++ [name]) then (.present, tree)
      else if tree.isFree folder name then
        (.made, { tree with folders := tree.folders ++ [folder ++ [name]] })
      else (.refused, tree)

/-- Makes the folder of a path; the folders around it must be there. Slashes at the end of the path
do not count as steps. -/
def makeFolder (tree : Tree) (working : Place) (text : String) : Making × Tree :=
  let path := Path.ofText text
  if text.isEmpty then (.missing, tree)
  else if Path.isUsable text then
    tree.makeLast (start working path) (path.steps.reverse.dropWhile (·.isEmpty))
  else (.refused, tree)

end Tree

end Sbe.Files
