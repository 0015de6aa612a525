import Sbe.Codec.Group

/-!
**Messages.**

A message is a fixed block followed by groups and fields of variable length. A header in front of it
tells the length of the block, the template, the schema and its version. As text, a message is a
line of entries in the order of its schema; showing it does not move the limit.
-/

namespace Sbe.Codec

/-- What a message is made of. -/
structure MessageShape where
  name : String
  templateId : Nat
  schemaId : Nat
  version : Nat
  blockLength : Nat
  semanticType : String := ""
  members : List Member
  groups : List GroupShape
  varData : List VarField

/-- A message being read or written: where its block starts, and how long the block is. -/
structure MessageView where
  shape : MessageShape
  offset : Nat
  blockLength : Nat

/-! ### The header -/

/-- The header in front of a message. -/
def headerType : CompositeType :=
  ⟨"messageHeader", 8,
    [.number { name := "blockLength", offset := 0, primitive := .uint16 },
      .number { name := "templateId", offset := 2, primitive := .uint16 },
      .number { name := "schemaId", offset := 4, primitive := .uint16 },
      .number { name := "version", offset := 6, primitive := .uint16 }]⟩

/-- The numbers of a header. -/
structure Header where
  blockLength : Nat
  templateId : Nat
  schemaId : Nat
  version : Nat
deriving DecidableEq

namespace Header

/-- Reads the header at an offset. -/
def read (offset : Nat) : Codec Header := do
  let blockLength ← getNumber .uint16 offset
  let templateId ← getNumber .uint16 (offset + 2)
  let schemaId ← getNumber .uint16 (offset + 4)
  let version ← getNumber .uint16 (offset + 6)
  pure ⟨blockLength, templateId, schemaId, version⟩

/-- Writes the header at an offset. -/
def write (header : Header) (offset : Nat) : Codec Unit := do
  putNumber .uint16 offset header.blockLength
  putNumber .uint16 (offset + 2) header.templateId
  putNumber .uint16 (offset + 4) header.schemaId
  putNumber .uint16 (offset + 6) header.version

end Header

/-! ### Opening -/

namespace MessageShape

/-- The header of a message as it is written. -/
def header (shape : MessageShape) : Header :=
  ⟨shape.blockLength, shape.templateId, shape.schemaId, shape.version⟩

/-- A wire on a buffer, before a message is opened on it. -/
def fresh (buffer : Buffer) : Wire := ⟨buffer, ⟨0, 0⟩⟩

/-- Opens a message whose block has the given length in the given version. -/
def openAt (shape : MessageShape) (offset blockLength version : Nat) : Codec MessageView := do
  let limit ← ofOutcome (addSize offset blockLength)
  fun wire => (.ok ⟨shape, offset, blockLength⟩, { wire with cursor := ⟨limit, version⟩ })

/-- Opens a message for writing. -/
def openWrite (shape : MessageShape) (offset : Nat) : Codec MessageView :=
  shape.openAt offset shape.blockLength shape.version

/-- Writes the header and opens the message after it for writing. -/
def openWithHeader (shape : MessageShape) (offset : Nat) : Codec MessageView := do
  shape.header.write offset
  shape.openWrite (← ofOutcome (addSize offset headerType.encodedLength))

/-- Reads the header at the start and opens the message after it as the header says. -/
def openByHeader (shape : MessageShape) : Codec MessageView := do
  let header ← Header.read 0
  shape.openAt headerType.encodedLength header.blockLength header.version

end MessageShape

namespace MessageView

/-- The number of bytes from the start of the block to the limit. -/
def encodedLength (view : MessageView) : Codec Nat := do
  ofOutcome (subSize (← limit) view.offset)

end MessageView

/-! ### Text -/

section

variable {σ : Type} (sink : Sink σ)

/-- Writes the value of a member, nothing where an older message has none. -/
def Member.renderValue (base : Nat) : Member → Render σ Unit
  | .number field => do
    Render.write sink (field.primitive.shown (← Render.read (field.read base)))
  | .array field => do
    Render.write sink "["
    Render.separated sink "," ((List.range field.length).map fun index => do
      Render.write sink (field.primitive.shown (← Render.read (field.readAt base index))))
    Render.write sink "]"
  | .text field => do Render.write sink (← Render.read (field.read base))
  | .enumeration field => do
    let raw ← Render.read (field.readRaw base)
    match EnumValue.ofRaw field.type raw with
    | .ok value => Render.write sink value.text
    | .error _ => Render.write sink (toString (field.type.primitive.value raw))
  | .constantEnum .. => pure ()
  | .bitSet field => do
    match ← Render.read (field.view? base) with
    | some view => view.render sink
    | none => pure ()
  | .composite field => do
    match ← Render.read (field.view? base) with
    | some view => view.render sink
    | none => pure ()

/-- Whether a member has an entry. -/
def Member.isShown : Member → Bool
  | .constantEnum .. => false
  | _ => true

/-- Writes the entry of a member. -/
def Member.render (base : Nat) (member : Member) : Render σ Unit := do
  Render.write sink (member.place.name ++ "=")
  member.renderValue sink base

/-- Writes the entry of a field of variable length. -/
def VarField.render (field : VarField) : Render σ Unit := do
  Render.write sink (field.name ++ "=")
  Render.write sink (← Render.read field.text)

/-- Writes up to `fuel` further repetitions of a group, with a comma before each but the first of
all. -/
def GroupView.renderEach (each : GroupView → Render σ Unit) : Nat → GroupView → Render σ Unit
  | 0, _ => pure ()
  | fuel + 1, view => do
    if view.hasNext then
      if 0 ≤ view.index then Render.write sink ","
      let view ← Render.read view.next
      each view
      GroupView.renderEach each fuel view
    else pure ()

mutual

/-- Writes the entry of a group: its repetitions in brackets. -/
def renderGroup : GroupShape → Render σ Unit
  | shape@(.mk name _ _ _ _ members groups varData) => do
    Render.write sink (name ++ "=[")
    let view ← Render.read shape.openRead
    let entries := renderGroups groups
    view.renderEach sink (fun view => do
      Render.write sink "("
      Render.separated sink "|"
        ((members.filter Member.isShown).map (Member.render sink view.offset)
          ++ entries ++ varData.map (VarField.render sink))
      Render.write sink ")") (view.count - view.taken)
    Render.write sink "]"

/-- Writes the entries of groups, each by itself. -/
def renderGroups : List GroupShape → List (Render σ Unit)
  | [] => []
  | shape :: rest => renderGroup shape :: renderGroups rest

end

/-- Writes the entries of a body. -/
def renderBody (base : Nat) (members : List Member) (groups : List GroupShape)
    (varData : List VarField) : Render σ Unit :=
  Render.separated sink "|" ((members.filter Member.isShown).map (Member.render sink base) ++
    renderGroups sink groups ++ varData.map (VarField.render sink))

/-- Writes one repetition of a group; its groups and fields of variable length are consumed. -/
def GroupShape.render (shape : GroupShape) (view : GroupView) : Render σ Unit := do
  Render.write sink "("
  renderBody sink view.offset shape.members shape.groups shape.varData
  Render.write sink ")"

/-- Writes a number, after the one that was found in its place where the two differ. -/
def renderActing (found expected : Nat) : Render σ Unit := do
  if found ≠ expected then Render.write sink (toString found ++ "/")
  Render.write sink (toString expected)

namespace MessageView

/-- Writes the message, with the limit at the end of its block. -/
def renderFromBlock (view : MessageView) : Render σ Unit := do
  let shape := view.shape
  Render.write sink ("[" ++ shape.name ++ "](sbeTemplateId=")
  Render.write sink (toString shape.templateId)
  Render.write sink "|sbeSchemaId="
  Render.write sink (toString shape.schemaId)
  Render.write sink "|sbeSchemaVersion="
  renderActing sink (← Render.read version) shape.version
  Render.write sink "|sbeBlockLength="
  renderActing sink view.blockLength shape.blockLength
  Render.write sink "):"
  renderBody sink view.offset shape.members shape.groups shape.varData

/-- Writes the message; the limit is put back, also where the sink refuses a piece. -/
def render (view : MessageView) : Render σ Unit := Render.restoringLimit do
  Render.read (do setLimit (← ofOutcome (addSize view.offset view.blockLength)))
  view.renderFromBlock sink

end MessageView

end

/-- One repetition of a group as text. -/
def GroupShape.text (shape : GroupShape) (view : GroupView) : Codec String :=
  Render.toText (shape.render .text view)

namespace MessageView

/-- The message as text. -/
def text (view : MessageView) : Codec String := Render.toText (view.render .text)

/-- What a reader who knows only the schema makes of a message that is being written. -/
def writtenText (view : MessageView) : Codec String := fun wire =>
  let reading : Codec String := do
    (← view.shape.openAt view.offset view.shape.blockLength view.shape.version).text
  ((reading.run wire).1, wire)

end MessageView

end Sbe.Codec
