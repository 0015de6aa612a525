import Sbe.Files.Tree

/-!
**Jobs on files.**

A job reads files, writes files and makes folders, and goes on by what came of it. The same job runs
on a tree in memory and on a disk.
-/

namespace Sbe.Files

/-- Work on files that ends in a value. -/
inductive Job (α : Type) where
  /-- Ends. -/
  | done (value : α)
  /-- Reads a file and goes on with what it holds, nothing when it cannot be read. -/
  | read (path : String) (next : Option String → Job α)
  /-- Writes a file and goes on with whether that was done. -/
  | write (path content : String) (next : Bool → Job α)
  /-- Makes a folder and goes on with what came of it. -/
  | makeFolder (path : String) (next : Making → Job α)

namespace Job

variable {α β : Type}

/-- One job after another. -/
def andThen : Job α → (α → Job β) → Job β
  | done value, following => following value
  | read path next, following => read path fun content => (next content).andThen following
  | write path content next, following =>
    write path content fun written => (next written).andThen following
  | makeFolder path next, following =>
    makeFolder path fun making => (next making).andThen following

instance : Monad Job where
  pure := done
  bind := andThen

/-- Runs a job on a tree, from a working folder. -/
def run (working : Place) : Job α → Tree → α × Tree
  | done value, tree => (value, tree)
  | read path next, tree => (next (tree.read working path)).run working tree
  | write path content next, tree =>
    match tree.write working path content with
    | some written => (next true).run working written
    | none => (next false).run working tree
  | makeFolder path next, tree =>
    (next (tree.makeFolder working path).1).run working (tree.makeFolder working path).2

/-- Makes the first of some folders, the paths of which go from the inside out. A folder is made
again after those around it when it could not be made for want of them. -/
def makeInnermost : List String → Job Bool
  | [] => done true
  | path :: outer =>
    makeFolder path fun making =>
      if making = .missing then do
        if ← makeInnermost outer then makeFolder path fun again => done again.isThere
        else done false
      else done making.isThere

/-- Makes a folder and those around it that are missing; gives whether it is there. The empty path
stands for the working folder. -/
def makeFolders (path : String) : Job Bool :=
  if path.isEmpty then done true else makeInnermost (path :: Path.around path)

end Job

end Sbe.Files
