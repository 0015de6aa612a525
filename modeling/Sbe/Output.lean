import Sbe.Files.Job
import Sbe.Plan
import Sbe.Schema.Verify
import Sbe.Text.Lines

/-!
**What becomes of generated units.**

Units go into one file of nested modules, or into a folder with a file for each unit and an index
that declares them all.
-/

namespace Sbe

open Sbe.Files (Job)

namespace Output

/-- The first line of everything generated. -/
def banner : String := "// Generated by brine-sbe. Do not edit."

/-- A line inside a module; empty lines stay empty. -/
def moduleLine (line : String) : String := (if line.isEmpty then "" else "    " ++ line) ++ "\n"

/-- A unit as a module of a larger file. -/
def moduleText (unit : SourceUnit) : String :=
  "\npub mod " ++ unit.name ++ " \x7b\n" ++
    String.join ((Text.lines unit.code).map moduleLine) ++
    "\x7d\npub use " ++ unit.name ++ "::*;\n"

/-- All units in one file. -/
def singleFile (units : List SourceUnit) : String :=
  banner ++ "\n" ++ String.join (units.map moduleText)

/-- The code of the first unit of a name. -/
def find? (units : List SourceUnit) (name : String) : Option String :=
  (units.find? fun unit => unit.name == name).map SourceUnit.code

/-- The file that declares the units of a folder. -/
def index (names : List String) : String :=
  banner ++ "\n\n" ++ String.join (names.map fun name => "pub mod " ++ name ++ ";\n") ++ "\n" ++
    String.join (names.map fun name => "pub use " ++ name ++ "::*;\n")

/-- Writes one unit into a folder. -/
def writeUnit (folder : String) (unit : SourceUnit) : Job (Result Unit) :=
  .write (Files.Path.inside folder (unit.name ++ ".rs")) (unit.code ++ "\n") fun written =>
    .done (if written then .ok () else .refuse .files)

/-- Writes units into a folder until one cannot be written. -/
def writeUnits (folder : String) : List SourceUnit → Job (Result Unit)
  | [] => .done (.ok ())
  | unit :: rest => do
    match ← writeUnit folder unit with
    | .ok () => writeUnits folder rest
    | .error halt => .done (.error halt)

/-- Writes the index of a folder. -/
def writeIndex (folder : String) (names : List String) : Job (Result Unit) :=
  .write (Files.Path.inside folder "mod.rs") (index names) fun written =>
    .done (if written then .ok () else .refuse .files)

/-- Writes what a run has generated into a folder, and the index if the run came to its end; gives
how often the run has written. -/
def writeRun (folder : String) (run : GenerationRun) : Job (Result Nat) := do
  match ← writeUnits folder run.units, run.ending with
  | .error halt, _ => .done (.error halt)
  | .ok (), some halt => .done (.error halt)
  | .ok (), none =>
    return (← writeIndex folder (run.units.map SourceUnit.name)).map fun _ => run.written

end Output

namespace Schema

/-- Verifies a schema and gives all its units in one file. -/
def generateFile (schema : Schema) (settings : Settings) : Result String := do
  schema.verify
  let run := schema.generate settings
  match run.ending with
  | some halt => .error halt
  | none => pure (Output.singleFile run.units)

/-- Makes a folder, verifies a schema and writes its units into the folder; gives their number. -/
def generateFolder (schema : Schema) (settings : Settings) (folder : String) :
    Job (Result Nat) := do
  if ← Job.makeFolders folder then
    match schema.verify with
    | .error halt => .done (.error halt)
    | .ok () => Output.writeRun folder (schema.generate settings)
  else .done (.refuse .files)

end Schema

end Sbe
