import Sbe.Codec.Message

/-!
**Access by name.**

A message or group that is open is asked where it stands, and its fields are read and written by
their names. What has no meaning for the element it is asked of gives nothing.
-/

namespace Sbe.Codec

/-- What an access gives. -/
inductive Datum where
  | nothing
  | absent
  | flag (value : Bool)
  | whole (value : Int)
  | number (primitive : Primitive) (pattern : Nat)
  | text (content : String)
  | bytes (content : List UInt8)
  | row (items : List Datum)

namespace Datum

/-- One datum stands for itself, several form a row. -/
def ofList : List Datum → Datum
  | [] => nothing
  | [datum] => datum
  | data => row data

/-- The outcome of a copy: how much was copied, and the destination. -/
def copied (outcome : Nat × List UInt8) : Datum := row [whole outcome.1, bytes outcome.2]

end Datum

/-- Work that gives nothing. -/
def silent (work : Codec Unit) : Codec Datum := do
  work
  pure .nothing

/-! ### Fields -/

/-- An access to a field. -/
inductive FieldAccess where
  | read
  | readRaw
  | write (pattern : Nat)
  | choose (variant : Option String)
  | readAt (index : Nat)
  | writeAt (index pattern : Nat)
  | readText
  | writeText (text : String)
  | readBytes
  | writeBytes (source : List UInt8)
  | copy (capacity : Nat)
  | length
  | skip
deriving DecidableEq

/-- A destination of zeros. -/
def emptyDestination (capacity : Nat) : List UInt8 := List.replicate capacity 0

/-- Accesses a number. -/
def NumberField.access (field : NumberField) (base : Nat) : FieldAccess → Codec Datum
  | .read | .readRaw => do pure (.number field.primitive (← field.read base))
  | .write pattern => silent (field.write base pattern)
  | _ => pure .nothing

/-- Accesses an array. -/
def ArrayField.access (field : ArrayField) (base : Nat) : FieldAccess → Codec Datum
  | .readAt index => do pure (.number field.primitive (← field.readAt base index))
  | .writeAt index pattern => silent (field.writeAt base index pattern)
  | _ => pure .nothing

/-- Accesses a text of fixed length, as a whole or by its characters. -/
def TextField.access (field : TextField) (base : Nat) : FieldAccess → Codec Datum
  | .readText => do pure (.text (← field.read base))
  | .writeText text => silent (field.write base text)
  | .writeBytes source => silent (field.put base source)
  | .copy capacity => do pure (.copied (← field.copy base (emptyDestination capacity)))
  | other => field.elements.access base other

/-- The value of an enum with a given name, the null value for no name. -/
def EnumValue.named (type : EnumType) (variant : Option String) : EnumValue type :=
  (variant.bind (EnumValue.ofName? type)).getD .null

/-- Accesses an enum. -/
def EnumField.access (field : EnumField) (base : Nat) : FieldAccess → Codec Datum
  | .read => do pure (.text (← field.read base).text)
  | .readRaw => do pure (.number field.type.primitive (← field.readRaw base))
  | .choose variant => silent (field.write base (EnumValue.named field.type variant))
  | _ => pure .nothing

/-- Accesses a field of variable length. -/
def VarField.access (field : VarField) : FieldAccess → Codec Datum
  | .readText => do
    match field.charset with
    | some charset => pure (.text (← field.read charset))
    | none => pure .nothing
  | .writeText text =>
    match field.charset with
    | some charset => silent (field.write charset text)
    | none => pure .nothing
  | .readBytes => do pure (.bytes (← field.bytes))
  | .writeBytes source => silent (field.put source)
  | .copy capacity => do pure (.copied (← field.copy (emptyDestination capacity)))
  | .length => do pure (.whole (← field.length))
  | .skip => do pure (.whole (← field.skip))
  | _ => pure .nothing

/-- Accesses a text that the schema fixes. -/
def ConstantText.access (constant : ConstantText) : FieldAccess → Codec Datum
  | .readText => pure (.text constant.text)
  | .readAt index => do pure (.whole (← ofOutcome (constant.byteAt index)).toNat)
  | .copy capacity => pure (.copied (constant.copy (emptyDestination capacity)))
  | _ => pure .nothing

namespace Member

/-- The primitive that the values of a member are made of. -/
def primitive : Member → Primitive
  | number field => field.primitive
  | array field => field.primitive
  | text _ => .char
  | enumeration field => field.type.primitive
  | constantEnum _ type _ => type.primitive
  | bitSet field => field.type.primitive
  | composite _ => .uint8

/-- Accesses a member. -/
def access (base : Nat) : Member → FieldAccess → Codec Datum
  | number field, access => field.access base access
  | array field, access => field.access base access
  | text field, access => field.access base access
  | enumeration field, access => field.access base access
  | constantEnum _ _ value, .read => pure (.text value.text)
  | _, _ => pure .nothing

/-- The member of a given name. -/
def find? (members : List Member) (name : String) : Option Member :=
  members.find? fun member => member.place.name == name

end Member

/-! ### Sets -/

/-- An access to a set. -/
inductive SetAccess where
  | raw
  | text
  | clear
  | test (choice : String)
  | change (choice : String) (value : Bool)
deriving DecidableEq

/-- Accesses a set. -/
def SetView.access (view : SetView) : SetAccess → Codec Datum
  | .raw => do pure (.number view.type.primitive (← view.raw))
  | .text => do pure (.text (← view.text))
  | .clear => silent view.clear
  | .test choice =>
    match view.type.choices.lookup choice with
    | some bit => do pure (.flag (SetType.test (← view.raw) bit))
    | none => pure .nothing
  | .change choice value =>
    match view.type.choices.lookup choice with
    | some bit => silent (view.change bit value)
    | none => pure .nothing

/-! ### Composites -/

namespace Part

/-- The name of a part. -/
def name : Part → String
  | number field => field.name
  | text field => field.name
  | constantNumber name _ => name
  | constantText constant => constant.name

/-- Accesses a part. -/
def access (base : Nat) : Part → FieldAccess → Codec Datum
  | number field, access => field.access base access
  | text field, access => field.access base access
  | constantNumber _ value, .read => pure (.whole value)
  | constantText constant, access => constant.access access
  | _, _ => pure .nothing

end Part

/-- An access to a composite. -/
inductive CompositeAccess where
  | offset
  | encodedLength
  | text
  | part (name : String) (access : FieldAccess)
deriving DecidableEq

/-- Accesses a composite once. -/
def CompositeView.accessOne (view : CompositeView) : CompositeAccess → Codec Datum
  | .offset => pure (.whole view.offset)
  | .encodedLength => pure (.whole view.type.encodedLength)
  | .text => do pure (.text (← view.text))
  | .part name access =>
    match view.type.parts.find? fun part => part.name == name with
    | some part => part.access view.offset access
    | none => pure .nothing

/-- Accesses a composite, perhaps several times. -/
def CompositeView.access (view : CompositeView) (accesses : List CompositeAccess) :
    Codec Datum := do
  pure (.ofList (← accesses.mapM view.accessOne))

/-! ### Messages and groups -/

/-- A message or group that is open. -/
inductive Element where
  | message (view : MessageView)
  | group (shape : GroupShape) (view : GroupView)

namespace Element

/-- Where the block of an element starts. -/
def offset : Element → Nat
  | message view => view.offset
  | group _ view => view.offset

/-- The length of the block of an element. -/
def blockLength : Element → Nat
  | message view => view.blockLength
  | group _ view => view.blockLength

/-- The fields of the block of an element. -/
def members : Element → List Member
  | message view => view.shape.members
  | group shape _ => shape.members

/-- The groups of an element. -/
def groups : Element → List GroupShape
  | message view => view.shape.groups
  | group shape _ => shape.groups

/-- The fields of variable length of an element. -/
def varData : Element → List VarField
  | message view => view.shape.varData
  | group shape _ => shape.varData

/-- Writes an element to a sink. -/
def render {σ : Type} (sink : Sink σ) : Element → Render σ Unit
  | message view => view.render sink
  | group shape view => shape.render sink view

/-- An element as text. -/
def text : Element → Codec String
  | message view => view.text
  | group shape view => shape.text view

/-- The field of variable length of a given name. -/
def varField? (element : Element) (name : String) : Option VarField :=
  element.varData.find? fun field => field.name == name

/-- The group of a given name. -/
def group? (element : Element) (name : String) : Option GroupShape :=
  element.groups.find? fun shape => shape.name == name

/-- Accesses a field of an element. -/
def access (element : Element) (name : String) (access : FieldAccess) : Codec Datum :=
  match Member.find? element.members name, element.varField? name with
  | some member, _ => member.access element.offset access
  | none, some field => field.access access
  | none, none => pure .nothing

/-- Accesses a set of an element. -/
def accessSet (element : Element) (name : String) (access : SetAccess) : Codec Datum := do
  match Member.find? element.members name with
  | some (.bitSet field) =>
    match ← field.view? element.offset with
    | some view => view.access access
    | none => pure .absent
  | _ => pure .nothing

/-- Accesses a composite of an element. -/
def accessComposite (element : Element) (name : String) (accesses : List CompositeAccess) :
    Codec Datum := do
  match Member.find? element.members name with
  | some (.composite field) =>
    match ← field.view? element.offset with
    | some view => view.access accesses
    | none => pure .absent
  | _ => pure .nothing

end Element

/-! ### Questions -/

/-- A question to a message or group. -/
inductive Query where
  | offset
  | limit
  | capacity
  | version
  | blockLength
  | text
  | rendered
  | encodedLength
  | writtenText
  | schemaBlockLength
  | templateId
  | schemaId
  | schemaVersion
  | semanticType
  | hasNext
  | count
  | index
  | memberAttributes (name : String)
  | varDataAttributes (name : String)
deriving DecidableEq

/-- Attributes in their usual order. -/
def Attributes.datum (attributes : Attributes) : Datum :=
  .row [.text attributes.epoch, .text attributes.timeUnit, .text attributes.semanticType,
    .text attributes.presence.name]

/-- Answers a question to a message. -/
def MessageView.answer (view : MessageView) : Query → Codec Datum
  | .encodedLength => do pure (.whole (← view.encodedLength))
  | .writtenText => do pure (.text (← view.writtenText))
  | .schemaBlockLength => pure (.whole view.shape.blockLength)
  | .templateId => pure (.whole view.shape.templateId)
  | .schemaId => pure (.whole view.shape.schemaId)
  | .schemaVersion => pure (.whole view.shape.version)
  | .semanticType => pure (.text view.shape.semanticType)
  | _ => pure .nothing

/-- Answers a question to a group. -/
def GroupView.answer (view : GroupView) : Query → Datum
  | .hasNext => .flag view.hasNext
  | .count => .whole view.count
  | .index => .whole view.index
  | _ => .nothing

namespace Element

/-- Answers one question. -/
def answerOne (element : Element) : Query → Codec Datum
  | .offset => pure (.whole element.offset)
  | .limit => do pure (.whole (← limit))
  | .capacity => do pure (.whole (← capacity))
  | .version => do pure (.whole (← version))
  | .blockLength => pure (.whole element.blockLength)
  | .text => do pure (.text (← element.text))
  | .rendered => do
    let (done, text) ← (element.render .text).shown
    pure (.row [.flag done, .text text])
  | .memberAttributes name =>
    pure (((Member.find? element.members name).map fun member =>
      member.place.attributes.datum).getD .nothing)
  | .varDataAttributes name =>
    pure (((element.varField? name).map fun field => field.attributes.datum).getD .nothing)
  | query =>
    match element with
    | message view => view.answer query
    | group _ view => pure (view.answer query)

/-- Answers questions, one after another. -/
def answer (element : Element) (queries : List Query) : Codec Datum := do
  pure (.ofList (← queries.mapM element.answerOne))

end Element

end Sbe.Codec
