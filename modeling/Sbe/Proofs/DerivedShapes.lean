import Sbe.Demo.Schema
import Sbe.Proofs.Enclosure
import Sbe.Proofs.VarDataLengths
import Sbe.Proofs.Versions

/-!
**The shapes that a schema describes.**

Codecs are written against shapes, source is generated from tokens. Here the shapes are derived from
the tokens: places, lengths, bounds and versions. What codecs do not cover, such as big-endian
numbers or dimensions of other sizes, has no shape.

* `Member.ofProperty?`, `Contents.ofBody?`, `shapes?`: the shapes of fields, bodies and schemas;
* `Contents.derivesFrom`, `Contents.Holds.exists_body`: what is derived comes from the layouts of a
  body, at every depth of groups;
* `generate_declares_shapes`: generated source declares what the shapes say;
* `Demo.exists_schema`: the shapes of the demonstration are those of its schema.
-/

namespace Sbe.Codec

open Layout
open Source (Property)

/-! ### Types -/

/-- The primitive of a token whose bytes stand in the order of the wire. -/
def primitive? (token : Token) : Option Primitive :=
  if token.encoding.byteOrder = .littleEndian then token.encoding.primitive else none

/-- The bit pattern of a scalar. -/
def pattern? (primitive : Primitive) (value : Option Scalar) : Option Nat :=
  (value.bind Scalar.toInt?).map primitive.pattern

/-- The attributes that a token declares. -/
def Attributes.ofToken (token : Token) : Attributes where
  epoch := token.encoding.epoch.getD ""
  timeUnit := token.encoding.timeUnit.getD ""
  semanticType := token.encoding.semanticType.getD ""
  presence := token.encoding.presence

/-- Where a property stands. Members of composites have no versions and no attributes. -/
def Place.ofProperty (property : Property) : Place where
  name := property.name
  offset := property.first.offset.toNat
  since := (property.field.map fun field => field.version.toNat).getD 0
  attributes := (property.field.map Attributes.ofToken).getD {}

/-- The enum of a token and the tokens behind it. -/
def EnumType.ofTokens? (first : Token) (others : List Token) : Option EnumType := do
  let primitive ← primitive? first
  let variants ← others.dropLast.mapM fun token => do
    pure (token.name, ← pattern? primitive token.encoding.constant)
  pure ⟨first.typeName, primitive, variants, ← pattern? primitive first.encoding.null?⟩

/-- The set of a token and the tokens behind it. -/
def SetType.ofTokens? (first : Token) (others : List Token) : Option SetType := do
  let choices ← others.dropLast.mapM fun token => do
    pure (token.name, ← pattern? .uint8 token.encoding.constant)
  pure ⟨first.typeName, ← primitive? first, choices⟩

/-- A property that is a number, or several. -/
def Member.ofNumbers? (property : Property) : Option Member := do
  let place := Place.ofProperty property
  let primitive ← primitive? property.first
  let length := property.first.arrayLength
  if length = 1 then pure (.number { place with primitive })
  else if primitive = .char then
    pure (.text { place with length, charset := ← (Source.charset property.first).toOption })
  else pure (.array { place with primitive, length })

/-- The part of a composite that a property is. -/
def Part.ofProperty? (property : Property) : Option Part :=
  if property.isConstant then
    match property.first.encoding.primitive, property.constant? with
    | some .char, some (.text content) => some (.constantText ⟨property.name, content⟩)
    | primitive, value => do
      pure (.constantNumber property.name (← pattern? (← primitive) value))
  else
    match Member.ofNumbers? property with
    | some (.number field) => some (.number field)
    | some (.text field) => some (.text field)
    | _ => none

/-- The composite of a token and the tokens behind it. -/
def CompositeType.ofTokens? (first : Token) (others : List Token) : Option CompositeType := do
  let properties ← (Source.members 0 others.dropLast).toOption
  pure ⟨first.typeName, first.encodedLength.toNat, ← properties.mapM Part.ofProperty?⟩

/-! ### Messages -/

/-- The member of a block that a field is. -/
def Member.ofProperty? (property : Property) : Option Member := do
  let place := Place.ofProperty property
  match property.first.signal with
  | .encoding => if property.isConstant then none else Member.ofNumbers? property
  | .beginEnum =>
    let type ← EnumType.ofTokens? property.first property.others
    if property.isConstant then
      let name ← (property.constant?.bind Scalar.toText?).bind Source.afterLastPoint?
      pure (.constantEnum place type (← EnumValue.ofName? type name))
    else pure (.enumeration { place with type })
  | .beginSet =>
    pure (.bitSet { place with type := ← SetType.ofTokens? property.first property.others })
  | .beginComposite =>
    pure (.composite { place with
      type := ← CompositeType.ofTokens? property.first property.others })
  | _ => none

/-- The field of variable length of a layout. -/
def VarField.ofLayout? (layout : VarDataLayout) : Option VarField := do
  guard (primitive? layout.length = some .uint32)
  let charset ← layout.data.encoding.charset.mapM fun _ => (Source.charset layout.data).toOption
  pure {
    name := layout.varData.name
    greatestLength := Source.maxLength layout.length
    charset
    since := layout.varData.version.toNat
    attributes := .ofToken layout.data }

/-- The group of a layout, given what its repetitions hold. -/
def GroupShape.ofLayout? (layout : GroupLayout) (contents : Contents) : Option GroupShape := do
  guard (primitive? layout.blockLength = some .uint16 ∧ layout.blockLength.offset = 0 ∧
    primitive? layout.numInGroup = some .uint16 ∧ layout.numInGroup.offset = 2 ∧
    layout.dimensions.encodedLength.toNat = headerSize)
  let bounds := layout.numInGroup.encoding
  pure (.mk layout.group.name layout.group.encodedLength.toNat
    (← pattern? .uint16 bounds.least?) (← pattern? .uint16 bounds.greatest?)
    layout.group.version.toNat contents.members contents.groups contents.varData)

/-- What a body holds. -/
def Contents.ofBody? (body : Body) : Option Contents := do
  let fields ← (splitFields 0 body.fields).toOption
  let members ← fields.mapM fun layout => do
    Member.ofProperty? (← (Property.ofField layout).toOption)
  let layouts ← (Layout.groups body).toOption
  let groups ← layouts.mapM fun ⟨layout, _⟩ => do
    GroupShape.ofLayout? layout (← ofBody? layout.body)
  let varData ← (splitVarData 0 body.varData).toOption
  pure ⟨members, groups, ← varData.mapM VarField.ofLayout?⟩
termination_by body.size

/-- The shape of a message. -/
def MessageShape.ofTokens? (schema : Schema) (tokens : List Token) : Option MessageShape := do
  let first ← tokens.head?
  let contents ← Contents.ofBody? (← (decomposeMessage tokens).toOption)
  pure {
    name := first.name
    templateId := first.id.toInt.toNat
    schemaId := schema.id.toInt.toNat
    version := schema.version.toNat
    blockLength := first.encodedLength.toNat
    semanticType := first.encoding.semanticType.getD ""
    members := contents.members
    groups := contents.groups
    varData := contents.varData }

/-- The shapes of the messages of a schema with the usual header. -/
def shapes? (schema : Schema) : Option (List MessageShape) := do
  guard (CompositeType.ofTokens? (← schema.header.head?) schema.header.tail = some headerType)
  schema.messages.mapM (MessageShape.ofTokens? schema)

/-! ### Where derived members stand -/

theorem exists_of_mapM_eq_some {α β : Type} {work : α → Option β} {items : List α} {values : List β}
    (made : items.mapM work = some values) {value : β} (member : value ∈ values) :
    ∃ item ∈ items, work item = some value := by
  induction items generalizing values with
  | nil =>
    cases made
    cases member
  | cons item rest ih =>
    rw [List.mapM_cons] at made
    obtain ⟨first, one, made⟩ := Option.bind_eq_some_iff.mp made
    obtain ⟨later, others, made⟩ := Option.bind_eq_some_iff.mp made
    cases made
    obtain rfl | inside := List.mem_cons.mp member
    · exact ⟨item, List.mem_cons_self, one⟩
    · obtain ⟨other, known, same⟩ := ih others inside
      exact ⟨other, List.mem_cons_of_mem _ known, same⟩

theorem Member.place_of_ofNumbers? {property : Property} {member : Member}
    (derived : ofNumbers? property = some member) : member.place = .ofProperty property := by
  simp only [ofNumbers?, Option.bind_eq_bind, Option.bind_eq_some_iff] at derived
  obtain ⟨primitive, _, derived⟩ := derived
  split_ifs at derived
  · cases derived
    rfl
  · obtain ⟨charset, _, ⟨⟩⟩ := Option.bind_eq_some_iff.mp derived
    rfl
  · cases derived
    rfl

/-- A member stands where its tokens say. -/
theorem Member.place_of_ofProperty? {property : Property} {member : Member}
    (derived : ofProperty? property = some member) : member.place = .ofProperty property := by
  simp only [ofProperty?, Option.bind_eq_bind] at derived
  split at derived
  · exact place_of_ofNumbers? (Option.ite_none_left_eq_some.mp derived).2
  · obtain ⟨type, _, derived⟩ := Option.bind_eq_some_iff.mp derived
    split at derived
    · simp only [Option.bind_eq_some_iff] at derived
      obtain ⟨name, _, value, _, ⟨⟩⟩ := derived
      rfl
    · cases derived
      rfl
  · obtain ⟨type, _, ⟨⟩⟩ := Option.bind_eq_some_iff.mp derived
    rfl
  · obtain ⟨type, _, ⟨⟩⟩ := Option.bind_eq_some_iff.mp derived
    rfl
  · cases derived

/-- Contents that are derived from a body have their members, groups and fields of variable length
from its layouts. -/
structure Contents.DerivesFrom (contents : Contents) (body : Body) : Prop where
  members : ∃ layouts, splitFields 0 body.fields = .ok layouts ∧ ∀ member ∈ contents.members,
    ∃ layout ∈ layouts, ∃ property, Property.ofField layout = .ok property ∧
      Member.ofProperty? property = some member
  groups : ∃ layouts, splitGroups 0 body.groups = .ok layouts ∧ ∀ shape ∈ contents.groups,
    ∃ layout ∈ layouts, ofBody? layout.body = some shape.contents
  varData : ∃ layouts, splitVarData 0 body.varData = .ok layouts ∧ ∀ field ∈ contents.varData,
    ∃ layout ∈ layouts, VarField.ofLayout? layout = some field

theorem GroupShape.contents_of_ofLayout? {layout : GroupLayout} {contents : Contents}
    {shape : GroupShape} (derived : ofLayout? layout contents = some shape) :
    shape.contents = contents := by
  obtain ⟨_, _, derived⟩ := Option.bind_eq_some_iff.mp derived
  obtain ⟨least, _, derived⟩ := Option.bind_eq_some_iff.mp derived
  obtain ⟨greatest, _, ⟨⟩⟩ := Option.bind_eq_some_iff.mp derived
  rfl

theorem Contents.derivesFrom {contents : Contents} {body : Body}
    (derived : ofBody? body = some contents) : contents.DerivesFrom body := by
  rw [ofBody?] at derived
  simp only [Option.bind_eq_bind, Option.bind_eq_some_iff] at derived
  obtain ⟨fields, fieldsFound, members, each, sized, sizedFound, shapes, opened, varData,
    varDataFound, others, all, ⟨⟩⟩ := derived
  refine ⟨⟨fields, Outcome.eq_ok_of_mem_toOption fieldsFound, fun member inside => ?_⟩,
    ⟨_, splitGroups_of_groups (Outcome.eq_ok_of_mem_toOption sizedFound),
      fun shape inside => ?_⟩,
    ⟨varData, Outcome.eq_ok_of_mem_toOption varDataFound, fun field inside =>
      exists_of_mapM_eq_some all inside⟩⟩
  · obtain ⟨layout, known, made⟩ := exists_of_mapM_eq_some each inside
    obtain ⟨property, found, made⟩ := Option.bind_eq_some_iff.mp made
    exact ⟨layout, known, property, Outcome.eq_ok_of_mem_toOption found, made⟩
  · obtain ⟨⟨layout, _⟩, known, made⟩ := exists_of_mapM_eq_some opened inside
    obtain ⟨contents, held, made⟩ := Option.bind_eq_some_iff.mp made
    refine ⟨layout, List.mem_map_of_mem known, ?_⟩
    rw [held, GroupShape.contents_of_ofLayout? made]

/-- What contents hold: themselves, and what the repetitions of their groups hold. -/
inductive Contents.Holds : Contents → Contents → Prop
  | self (contents : Contents) : contents.Holds contents
  | group {contents inner : Contents} {shape : GroupShape} (member : shape ∈ contents.groups)
      (deeper : Holds shape.contents inner) : contents.Holds inner

/-- Derived contents at any depth are those of a body at that depth. -/
theorem Contents.Holds.exists_body {contents inner : Contents} (holds : contents.Holds inner)
    {body : Body} (derived : ofBody? body = some contents) :
    ∃ deep, body.Contains deep ∧ inner.DerivesFrom deep := by
  induction holds generalizing body with
  | self => exact ⟨body, .self body, derivesFrom derived⟩
  | group member _ ih =>
    obtain ⟨layouts, found, each⟩ := (derivesFrom derived).groups
    obtain ⟨layout, known, held⟩ := each _ member
    obtain ⟨deep, contains, derives⟩ := ih held
    exact ⟨deep, .group found known contains, derives⟩

/-! ### What the source declares -/

/-- The lines that tell since when a member is there, and where. -/
def Member.lines (member : Member) : Source.Code :=
  let upper := Name.upperSnakeCase member.place.name
  [Source.Code.constant (upper ++ "_SINCE_VERSION") "u32" (toString member.place.since),
    Source.Code.constant (upper ++ "_ENCODING_OFFSET") "usize" (toString member.place.offset)]

/-- The line that tells how long a value may be. -/
def VarField.line (field : VarField) : String :=
  Source.Code.constant (Name.upperSnakeCase field.name ++ "_MAX_LENGTH") "usize"
    (toString field.greatestLength)

theorem Member.lines_infix {settings : Settings} {side : Source.Side} {layout : FieldLayout}
    {property : Property} (opened : Property.ofField layout = .ok property) {member : Member}
    (derived : ofProperty? property = some member) {code : Source.Code}
    (made : Source.accessors settings side .body property = .ok code) : member.lines <:+: code := by
  unfold Property.ofField at opened
  split at opened
  · cases opened
  · cases opened
    rw [lines, place_of_ofProperty? derived]
    obtain ⟨constants, first, made⟩ := Outcome.bind_eq_ok_iff.mp made
    have leading : constants <:+: code := by
      dsimp only at made
      split at made
      all_goals
        obtain ⟨functions, _, made⟩ := Outcome.bind_eq_ok_iff.mp made
        cases made
        exact (List.prefix_append _ _).isInfix
    obtain ⟨accessor, _, first⟩ := Outcome.bind_eq_ok_iff.mp first
    cases first
    refine List.IsInfix.trans ?_ leading
    refine List.IsInfix.trans ?_ (List.prefix_append _ _).isInfix
    exact ⟨["", _], [_], rfl⟩

/-- What a unit declares of contents: where their members stand, and how long their values may
be. -/
structure Contents.DeclaredIn (contents : Contents) (code : Source.Code) : Prop where
  members : ∀ member ∈ contents.members, member.lines.indent <:+: code
  varData : ∀ field ∈ contents.varData, Source.Code.indent [field.line] <:+: code

/-- What a run declares of a shape: both units of the message declare its contents, at every depth
of groups. -/
def MessageShape.DeclaredBy (shape : MessageShape) (run : GenerationRun) : Prop :=
  ∀ side, ∃ unit ∈ run.units, ∃ code : Source.Code, unit.name = Plan.unitName shape.name side ∧
    unit.code = code.text ∧ ∀ contents, shape.contents.Holds contents → contents.DeclaredIn code

/-- **Shapes are those of the generated source.** A run for a verified schema that comes to its end
declares all shapes that are derived from the schema. -/
theorem generate_declares_shapes {schema : Schema} (verified : schema.verify = .ok ())
    {settings : Settings} (ended : (schema.generate settings).ending = none)
    {shapes : List MessageShape} (derived : shapes? schema = some shapes) :
    ∀ shape ∈ shapes, shape.DeclaredBy (schema.generate settings) := by
  intro shape listed side
  obtain ⟨_, _, derived⟩ := Option.bind_eq_some_iff.mp derived
  obtain ⟨_, _, derived⟩ := Option.bind_eq_some_iff.mp derived
  obtain ⟨tokens, known, derived⟩ := exists_of_mapM_eq_some derived listed
  simp only [MessageShape.ofTokens?, Option.bind_eq_bind, Option.bind_eq_some_iff] at derived
  obtain ⟨first, start, body, found, contents, held, ⟨⟩⟩ := derived
  have decomposed := Outcome.eq_ok_of_mem_toOption found
  obtain ⟨unit, written, _, opening, code, head, name, made, text⟩ :=
    Schema.exists_unit_of_generate (Schema.verify_eq_ok_iff.mp verified) ended known side
  rw [start] at head
  cases head
  refine ⟨unit, written, code, name, text, fun inner holds => ?_⟩
  obtain ⟨deep, contains, derives⟩ := holds.exists_body held
  obtain ⟨path, members, own, among⟩ := Source.members_infix_messageUnit made decomposed contains
  refine ⟨fun member inside => ?_, fun field inside => ?_⟩
  · obtain ⟨layouts, split, each⟩ := derives.members
    obtain ⟨layout, listed, property, opened, same⟩ := each member inside
    obtain ⟨functions, emitted, within⟩ :=
      Source.accessors_infix_bodyMembers own split listed opened
    exact (((Member.lines_infix opened same emitted).trans within).map _).trans among
  · obtain ⟨layouts, split, each⟩ := derives.varData
    obtain ⟨layout, listed, same⟩ := each field inside
    obtain ⟨accessors, emitted, within⟩ := Source.varDataAccessors_infix own split listed
    obtain ⟨_, _, _, _, line, _⟩ := Source.lengthFunction_infix emitted
    obtain ⟨_, _, same⟩ := Option.bind_eq_some_iff.mp same
    obtain ⟨_, _, ⟨⟩⟩ := Option.bind_eq_some_iff.mp same
    exact ((line.trans within).map _).trans among

end Sbe.Codec

namespace Sbe.Demo

/-- The demonstration schema is accepted, its source can be generated, and it describes the shapes
of the demonstration. -/
theorem exists_schema : ∃ described, schema = .ok described ∧ described.verify = .ok () ∧
    (described.generate { generateInterfaces := true }).ending = none ∧
    Codec.shapes? described = some messages := by
  obtain ⟨described, built⟩ :=
    Outcome.exists_eq_ok_of_isOk (show schema.isOk = true by decide +kernel)
  have verified : (schema >>= Schema.verify) = .ok () := Outcome.eq_ok_of_isOk (by decide +kernel)
  have ended : (schema.map fun described =>
      (described.generate { generateInterfaces := true }).ending) = .ok none := by
    decide +kernel
  have shaped : schema.toOption.bind Codec.shapes? = some messages := by with_unfolding_all rfl
  rw [built] at verified ended shaped
  exact ⟨described, built, verified, Except.ok.inj ended, shaped⟩

/-- **The codecs of the demonstration fit the source that is generated for its schema**: the units
declare the shapes that the codecs are written against. -/
theorem units_declare_messages : ∃ described, schema = .ok described ∧
    ∀ shape ∈ messages, shape.DeclaredBy (described.generate { generateInterfaces := true }) := by
  obtain ⟨described, built, verified, ended, shaped⟩ := exists_schema
  exact ⟨described, built, Codec.generate_declares_shapes verified ended shaped⟩

end Sbe.Demo
