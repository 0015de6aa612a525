import Sbe.Layout.Outline
import Sbe.Output
import Sbe.Settings.Reader

/-!
**The command line.**

There are three commands: to generate codecs from a schema, to verify a schema, and to show the
layout of its messages. An option may stand once; its value is the next argument or is attached to
it. Anything else is wrong usage.
-/

namespace Sbe.CommandLine

open Sbe.Files (Job)

/-- What the command line asks for. -/
inductive Command where
  | generate (input output : String) (singleFile : Bool) (config : Option String)
      (decodeUnknownEnumValues generateInterfaces : Bool) (keywordAppendToken : Option String)
  | verify (input : String)
  | inspect (input : String)
deriving DecidableEq

/-! ### Options -/

/-- What an option takes: nothing, a path, which is never empty, or any text. -/
inductive Argument where
  | nothing
  | path
  | text
deriving DecidableEq

/-- An option: its long name, its letter and what it takes. -/
structure Switch where
  long : String
  letter : Option Char
  argument : Argument
deriving DecidableEq

/-- The options that were given, with their values. -/
abbrev Given := List (String × String)

/-- Adds an option; it may stand once, and a path is never empty. -/
def record (switch : Switch) (value : String) (given : Given) : Option Given :=
  if given.any (fun entry => entry.1 == switch.long) then none
  else if switch.argument = .path ∧ value.isEmpty then none
  else some (given ++ [(switch.long, value)])

/-- What reading one argument comes to. -/
inductive Reading where
  /-- The argument is complete. -/
  | complete (given : Given)
  /-- The next argument is the value of an option. -/
  | awaiting (switch : Switch) (given : Given)

/-- Reads the letters of an argument. -/
def readLetters (switches : List Switch) (given : Given) : List Char → Option Reading
  | [] => some (.complete given)
  | letter :: rest =>
    match switches.find? fun switch => switch.letter == some letter with
    | none => none
    | some switch =>
      if switch.argument = .nothing then
        match record switch "" given with
        | some given => readLetters switches given rest
        | none => none
      else
        match rest with
        | [] => some (.awaiting switch given)
        | '=' :: value => (record switch (String.ofList value) given).map .complete
        | value => (record switch (String.ofList value) given).map .complete

/-- Reads an argument after its two dashes. -/
def readLong (switches : List Switch) (given : Given) (input : List Char) : Option Reading := do
  let name := String.ofList (input.takeWhile (· ≠ '='))
  let switch ← switches.find? fun switch => switch.long == name
  match input.dropWhile (· ≠ '='), switch.argument with
  | [], .nothing => (record switch "" given).map .complete
  | [], _ => some (.awaiting switch given)
  | _ :: _, .nothing => none
  | _ :: value, _ => (record switch (String.ofList value) given).map .complete

/-- Whether an argument can be the value of the option before it. -/
def isValue (argument : String) : Bool := argument == "-" || argument.toList.head? != some '-'

/-- Reads the arguments of a command; all of them are options. -/
def readOptions (switches : List Switch) (given : Given) : List String → Option Given
  | [] => some given
  | argument :: rest =>
    let reading :=
      match argument.toList with
      | '-' :: '-' :: name => readLong switches given name
      | '-' :: letter :: letters => readLetters switches given (letter :: letters)
      | _ => none
    if argument = "--" then if rest.isEmpty then some given else none
    else
      match reading, rest with
      | none, _ => none
      | some (.complete given), rest => readOptions switches given rest
      | some (.awaiting _ _), [] => none
      | some (.awaiting switch given), value :: rest =>
        if isValue value then
          match record switch value given with
          | some given => readOptions switches given rest
          | none => none
        else none

/-! ### Commands -/

/-- The option that every command takes, and the whole program too. -/
def verboseSwitch : Switch := ⟨"verbose", some 'v', .nothing⟩

/-- The option for the schema. -/
def inputSwitch : Switch := ⟨"input", some 'i', .path⟩

/-- The options of the command that generates. -/
def generateSwitches : List Switch :=
  [verboseSwitch, inputSwitch, ⟨"output", some 'o', .path⟩, ⟨"single-file", none, .nothing⟩,
    ⟨"config", some 'c', .path⟩, ⟨"decode-unknown-enum-values", none, .nothing⟩,
    ⟨"generate-interfaces", none, .nothing⟩, ⟨"keyword-append-token", none, .text⟩]

/-- Reads the options of the command that generates. -/
def readGenerate (arguments : List String) : Option Command := do
  let given ← readOptions generateSwitches [] arguments
  let input ← given.lookup "input"
  let output ← given.lookup "output"
  pure (.generate input output (given.lookup "single-file").isSome (given.lookup "config")
    (given.lookup "decode-unknown-enum-values").isSome (given.lookup "generate-interfaces").isSome
    (given.lookup "keyword-append-token"))

/-- Reads the options of a command that only looks at a schema. -/
def readInput (arguments : List String) : Option String := do
  let given ← readOptions [verboseSwitch, inputSwitch] [] arguments
  given.lookup "input"

/-- Reads a command. -/
def readCommand : List String → Option Command
  | "generate" :: arguments => readGenerate arguments
  | "verify" :: arguments => (readInput arguments).map .verify
  | "inspect" :: arguments => (readInput arguments).map .inspect
  | _ => none

/-- Reads a command line, nothing for wrong usage. -/
def parse : List String → Option Command
  | "-v" :: arguments => readCommand arguments
  | "--verbose" :: arguments => readCommand arguments
  | arguments => readCommand arguments

/-! ### Running -/

/-- Work on files that can be refused. -/
abbrev Work (α : Type) := ExceptT (Halt SchemaError) Job α

/-- A refusable job as work. -/
def Work.ofJob {α : Type} (job : Job (Result α)) : Work α := job

/-- The text of a file. -/
def readText (path : String) : Work String :=
  Work.ofJob (.read path fun content => .done (.ofOption .files content))

/-- Writes a file. -/
def writeText (path content : String) : Work Unit :=
  Work.ofJob (.write path content fun written => .done (if written then .ok () else .refuse .files))

/-- Loads a schema from a file and verifies it. -/
def loadSchema (path : String) : Work Schema := do
  let content ← readText path
  Work.ofJob (.done (Schema.load content))

/-- Loads settings from a file; without one they are the defaults. -/
def loadSettings : Option String → Work Settings
  | none => pure {}
  | some path => do
    let content ← readText path
    Work.ofJob (.done (Settings.parse content))

/-- Runs a command; gives the text it prints. -/
def Command.run : Command → Work String
  | .generate input output singleFile config decodeUnknown interfaces token => do
    let settings ← loadSettings config
    let settings : Settings :=
      { settings with
        decodeUnknownEnumValues := settings.decodeUnknownEnumValues || decodeUnknown
        generateInterfaces := settings.generateInterfaces || interfaces
        keywordAppendToken := token.or settings.keywordAppendToken }
    let schema ← loadSchema input
    if singleFile then
      let code ← Work.ofJob (.done (schema.generateFile settings))
      writeText output code
      pure ("Generated codecs written to " ++ output ++ "\n")
    else
      let count ← Work.ofJob (schema.generateFolder settings output)
      pure ("Generated " ++ toString count ++ " units into " ++ output ++ "\n")
  | .verify input => do
    let schema ← loadSchema input
    pure (input ++ ": " ++ toString schema.types.length ++ " types, " ++
      toString schema.messages.length ++ " messages, OK\n")
  | .inspect input => do
    let schema ← loadSchema input
    let shown ← Work.ofJob (.done schema.inspect)
    pure (shown ++ "\n")

/-- How the program ends: what it prints, and why it failed if it did. -/
structure Ending where
  exitCode : UInt32
  printed : String
  failure : Option SchemaError
deriving DecidableEq

/-- The ending of a command that ran. -/
def ending : Result String → Ending
  | .ok printed => ⟨0, printed, none⟩
  | .error (.refused cause) => ⟨1, "", some cause⟩
  | .error .fault => ⟨101, "", none⟩

/-- The whole program. -/
def program (arguments : List String) : Job Ending :=
  match parse arguments with
  | none => .done ⟨2, "", none⟩
  | some command => do
    let outcome ← command.run.run
    .done (ending outcome)

end Sbe.CommandLine
