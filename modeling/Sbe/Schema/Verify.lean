import Sbe.Json.Reader
import Sbe.Layout
import Sbe.Name
import Sbe.Span
import Sbe.Token.Json

/-!
**Verification of schemas.**

A schema is verified once after it is loaded: every stream is one well-nested element of the right
signal, names are identifiers, the header has its four unsigned fields, bodies decompose completely
with unsigned counts and lengths, no type is defined twice, and every type referred to is defined.
-/

namespace Sbe.Schema

open Layout

/-- Tests that the names of all tokens are identifiers. -/
def checkNames (tokens : List Token) : Result Unit :=
  tokens.forM fun token => do
    if !Name.isIdentifier token.name then .refuse (.invalidName token.name)
    match token.referencedName with
    | none => pure ()
    | some name => if !Name.isIdentifier name then .refuse (.invalidName name)

/-- Tests that a token has an unsigned primitive type. -/
def requireUnsigned (token : Token) : Result Unit := do
  let primitive ← token.primitive
  if !primitive.isUnsigned then .refuse (.unsupportedPrimitive token.name primitive)

/-- The signal of the first token of a stream must satisfy a test. -/
def requireFirst (expected : Signal) (test : Signal → Bool) (tokens : List Token) : Result Token :=
  match tokens with
  | [] => .fault
  | first :: _ =>
    if test first.signal then .ok first else .refuse (misplaced expected first)

/-- The fields every header must have, in the order they are tested. -/
def headerFields : List HeaderField := [.blockLength, .templateId, .schemaId, .version]

/-- Verifies the header. -/
def verifyHeader (schema : Schema) : Result Unit := do
  let _ ← Span.check .header schema.header
  let _ ← requireFirst .beginComposite (· == .beginComposite) schema.header
  headerFields.forM fun field => do requireUnsigned (← schema.headerField field)
  checkNames schema.header

/-- Verifies one type; gives its name and the types it refers to. -/
def verifyType (defined : List String) (tokens : List Token) : Result (String × List Token) := do
  let references ← Span.check .type tokens
  let first ← requireFirst .beginComposite Signal.opensType tokens
  if defined.contains first.typeName then .refuse (.duplicateType first.typeName)
  checkNames tokens
  pure (first.typeName, references)

/-- Verifies types after those of the given names; gives all names and the types referred to. -/
def verifyTypes (defined : List String) : List (List Token) → Result (List String × List Token)
  | [] => .ok (defined, [])
  | tokens :: rest => do
    let (name, references) ← verifyType defined tokens
    let (defined, others) ← verifyTypes (defined ++ [name]) rest
    pure (defined, references ++ others)

/-- Verifies a body and the bodies of its groups. -/
def verifyBody (body : Body) : Result Unit := do
  let fields ← splitFields 0 body.fields
  fields.forM fun layout =>
    if layout.type.isEmpty then .refuse (.emptyTokens .fieldType) else pure ()
  let layouts ← groups body
  layouts.forM fun ⟨layout, _⟩ => do
    requireUnsigned layout.blockLength
    requireUnsigned layout.numInGroup
    verifyBody layout.body
  let varData ← splitVarData 0 body.varData
  varData.forM fun layout => requireUnsigned layout.length
termination_by body.size

/-- Verifies one message; gives the types it refers to. -/
def verifyMessage (tokens : List Token) : Result (List Token) := do
  let references ← Span.check .message tokens
  let _ ← requireFirst .beginMessage (· == .beginMessage) tokens
  checkNames tokens
  verifyBody (← decomposeMessage tokens)
  pure references

/-- Verifies a schema. -/
def verify (schema : Schema) : Result Unit := do
  schema.verifyHeader
  let (defined, typeReferences) ← verifyTypes [] schema.types
  let defined := defined ++ schema.headerName?.toList
  let messageReferences ← schema.messages.mapM verifyMessage
  (typeReferences ++ messageReferences.flatten).forM fun token =>
    if defined.contains token.typeName then pure ()
    else .refuse (.unknownType token.typeName token.name)

/-- Reads a schema from JSON text without verifying it. -/
def parse (text : String) : Result Schema :=
  .ofOption .json ((Json.parse text).bind ofJson?)

/-- Reads a schema from JSON text and verifies it. -/
def load (text : String) : Result Schema := do
  let schema ← parse text
  schema.verify
  pure schema

end Sbe.Schema
