import Sbe.CommandLine

/-!
**The program.**

Runs a command line on the disk.
-/

namespace Sbe

open Sbe.Files (Job Making)

/-- Whether an action on the disk succeeds. -/
def succeeds (action : IO Unit) : IO Bool :=
  try
    action
    pure true
  catch _ => pure false

/-- Makes a folder on the disk. -/
def makeFolderOnDisk (path : String) : IO Making :=
  try
    IO.FS.createDir path
    pure .made
  catch
    | .noFileOrDirectory .. => pure .missing
    | .alreadyExists .. =>
      return if ← succeeds (IO.FS.createDirAll path) then .present else .refused
    | _ => pure .refused

/-- Runs a job on the disk. -/
def runOnDisk {α : Type} : Job α → IO α
  | .done value => pure value
  | .read path next => do
    let content ←
      try
        some <$> IO.FS.readFile path
      catch _ => pure none
    runOnDisk (next content)
  | .write path content next => do
    let written ← succeeds (IO.FS.writeFile path content)
    runOnDisk (next written)
  | .makeFolder path next => do
    runOnDisk (next (← makeFolderOnDisk path))

end Sbe

/-- Runs the command line and exits with its code. -/
def main (arguments : List String) : IO UInt32 := do
  let ending ← Sbe.runOnDisk (Sbe.CommandLine.program arguments)
  IO.print ending.printed
  match ending.failure with
  | some cause => IO.eprintln ("Error: " ++ cause.detail)
  | none => pure ()
  return ending.exitCode
