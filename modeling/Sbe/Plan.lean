import Sbe.Source.BitSet
import Sbe.Source.Composite
import Sbe.Source.Message

/-!
**The plan of a generation run.**

A schema gives a list of steps: the units of the header unless it is listed among the types, those
of the types, then those of the messages, decoder before encoder. A run takes the steps in order and
ends at the first that fails; the units it wrote before that stay.
-/

namespace Sbe

open Source (Side)

/-- A unit of generated source: its name and its text. -/
structure SourceUnit where
  name : String
  code : String
deriving DecidableEq

/-- One step of a generation run. -/
inductive PlanStep where
  /-- A unit of the given name, and the outcome of emitting its text. -/
  | emit (name : String) (code : Result String)
  /-- A stream that no unit can be planned for. -/
  | stop (cause : SchemaError)

/-- What a run has written, how often it has written, and why it ended early if it did. -/
@[ext]
structure GenerationRun where
  units : List SourceUnit
  written : Nat
  ending : Option (Halt SchemaError)
deriving DecidableEq

/-- How often a run to its end has written, or why it ended early. -/
def GenerationRun.count (run : GenerationRun) : Result Nat :=
  match run.ending with
  | none => .ok run.written
  | some halt => .error halt

namespace Plan

/-- The name of the unit of one side of a type or message. -/
def unitName (typeName : String) (side : Side) : String := Name.unitName typeName ++ side.unitSuffix

/-- The units of both sides of a type or message. -/
def sides (typeName : String) (code : Side → Result Source.Code) : List PlanStep :=
  Side.both.map fun side => .emit (unitName typeName side) ((code side).map Source.Code.text)

/-- The steps for a type. -/
def ofType (settings : Settings) (schema : Schema) (tokens : List Token) : List PlanStep :=
  match tokens with
  | [] => [.stop (.emptyTokens .type)]
  | first :: _ =>
    match first.signal with
    | .beginEnum =>
      [.emit (Name.unitName first.typeName)
        ((Source.enumUnit settings first tokens).map Source.Code.text)]
    | .beginSet => sides first.typeName (Source.setUnit settings schema first tokens)
    | .beginComposite => sides first.typeName (Source.compositeUnit settings schema first tokens)
    | _ => [.stop (Layout.misplaced .beginComposite first)]

/-- The steps for a message, given the name of the header. -/
def ofMessage (settings : Settings) (schema : Schema) (header : String) (tokens : List Token) :
    List PlanStep :=
  match tokens with
  | [] => [.stop (.emptyTokens .message)]
  | first :: _ => sides first.name (Source.messageUnit settings schema header first tokens)

/-- The steps for the header, none when a type defines it. -/
def ofHeader (settings : Settings) (schema : Schema) (first : Token) : List PlanStep :=
  if (schema.type? first.typeName).isSome then []
  else sides first.typeName (Source.compositeUnit settings schema first schema.header)

/-- The steps for a schema. -/
def ofSchema (settings : Settings) (schema : Schema) : List PlanStep :=
  match schema.header with
  | [] => [.stop (.emptyTokens .header)]
  | first :: _ =>
    ofHeader settings schema first ++ schema.types.flatMap (ofType settings schema) ++
      schema.messages.flatMap (ofMessage settings schema first.typeName)

/-- Takes the steps in order, and counts one for each unit it writes. -/
def run : List PlanStep → GenerationRun
  | [] => ⟨[], 0, none⟩
  | .stop cause :: _ => ⟨[], 0, some (.refused cause)⟩
  | .emit name code :: rest =>
    match code with
    | .error halt => ⟨[], 0, some halt⟩
    | .ok code =>
      let later := run rest
      ⟨⟨name, code⟩ :: later.units, later.written + 1, later.ending⟩

end Plan

namespace Schema

/-- Generates the units of a schema. -/
def generate (schema : Schema) (settings : Settings) : GenerationRun :=
  Plan.run (Plan.ofSchema settings schema)

end Schema

end Sbe
