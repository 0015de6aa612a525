import Sbe.Json.Printer
import Sbe.Layout

/-!
**Outlines.**

The outline of a message lists the names it is made of: its fields, its groups with their own
outlines, and its fields of variable length.
-/

namespace Sbe

/-- The names a message or group body is made of. -/
inductive Outline where
  | body (name : String) (id : Int32) (sinceVersion : UInt32) (blockLength : UInt64)
      (fields : List String) (groups : List Outline) (varData : List String)

namespace Outline

open Layout

/-- The outline of a body that a token opens. -/
def ofBody (token : Token) (body : Body) : Result Outline := do
  let fields ← splitFields 0 body.fields
  let layouts ← groups body
  let groups ← layouts.mapM fun ⟨layout, _⟩ => ofBody layout.group layout.body
  let varData ← splitVarData 0 body.varData
  pure (.body token.name token.id token.version token.encodedLength
    (fields.map fun layout => layout.field.name) groups
    (varData.map fun layout => layout.varData.name))
termination_by body.size

/-- The outline of a message. -/
def ofMessage (tokens : List Token) : Result Outline := do
  let body ← decomposeMessage tokens
  match tokens with
  | [] => .fault
  | token :: _ => ofBody token body

open Sbe.Json (Value)

mutual

/-- The JSON form of an outline. -/
def toJson : Outline → Value
  | body name id sinceVersion blockLength fields groups varData => .record
    [("name", .text name), ("id", .int id.toInt), ("since_version", .int sinceVersion.toNat),
      ("block_length", .int blockLength.toNat), ("fields", .array (fields.map .text)),
      ("groups", .array (listToJson groups)), ("var_data", .array (varData.map .text))]

/-- The JSON forms of a list of outlines. -/
def listToJson : List Outline → List Value
  | [] => []
  | outline :: rest => outline.toJson :: listToJson rest

end

end Outline

namespace Schema

/-- The outlines of the messages of a schema. -/
def outlines (schema : Schema) : Result (List Outline) := schema.messages.mapM Outline.ofMessage

/-- The outlines of the messages of a schema, as spread JSON text. -/
def inspect (schema : Schema) : Result String := do
  pure (Json.Value.array (Outline.listToJson (← schema.outlines))).spread

end Schema

end Sbe
