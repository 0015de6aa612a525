import Sbe.Proofs.Decomposition

/-!
**Built schemas are verified.**

A schema that is built from a description passes verification when its names are identifiers, no
type is defined twice, and every type that is used is defined.

* `WellNamed`: what is asked of the names of a description;
* `verify_built`: verification of what is built from it;
* `decompose_built`: decomposition, outlines and verification together.
-/

namespace Sbe.Build

open Layout

/-! ### Descriptions of schemas -/

/-- The description of a header: a composite that has an encoding for each header field, all of them
unsigned. -/
structure HeaderDescription where
  name : String
  offset : UInt64
  encodedLength : UInt64
  members : List TypeDescription
  present : ∀ field : HeaderField,
    ∃ token ∈ (TypeDescription.composite name offset encodedLength members).tokens,
      token.signal = .encoding ∧ token.name = field.name
  unsigned : ∀ token ∈ (TypeDescription.composite name offset encodedLength members).tokens,
    token.signal = .encoding → ∀ field : HeaderField, token.name = field.name → token.IsUnsigned

/-- The header as a type. -/
def HeaderDescription.type (header : HeaderDescription) : TypeDescription :=
  .composite header.name header.offset header.encodedLength header.members

/-- The description of a schema. -/
structure SchemaDescription where
  packageName : String
  namespaceName : Option String := none
  id : Int32
  version : UInt32 := 0
  semanticVersion : Option String := none
  header : HeaderDescription
  types : List TypeDescription
  messages : List MessageDescription
  defining : ∀ type ∈ types, type.name? ≠ none

namespace SchemaDescription

/-- The schema that is built from a description. -/
def schema (description : SchemaDescription) : Schema where
  packageName := description.packageName
  namespaceName := description.namespaceName
  id := description.id
  version := description.version
  semanticVersion := description.semanticVersion
  header := description.header.type.tokens
  types := description.types.map TypeDescription.tokens
  messages := description.messages.map MessageDescription.tokens

/-- All streams of a schema. -/
def streams (description : SchemaDescription) : List (List Token) :=
  description.schema.header :: (description.schema.types ++ description.schema.messages)

/-- The names of the types that are defined. -/
def typeNames (description : SchemaDescription) : List String :=
  description.types.filterMap TypeDescription.name?

/-- The names of the types that are used in a field or composite. -/
def uses (description : SchemaDescription) : List String :=
  description.types.flatMap TypeDescription.inside ++
    description.messages.flatMap fun message => message.body.uses

/-- All names are identifiers, no type is defined twice, and the types that are used are defined, be
it by the header. -/
structure WellNamed (description : SchemaDescription) : Prop where
  identifiers : ∀ stream ∈ description.streams, ∀ token ∈ stream,
    Name.isIdentifier token.name = true
  unique : description.typeNames.Nodup
  closed : ∀ name ∈ description.uses, name ∈ description.typeNames ++ [description.header.name]

end SchemaDescription

/-! ### Streams -/

theorem isNamed_of_isIdentifier {tokens : List Token}
    (identifiers : ∀ token ∈ tokens, Name.isIdentifier token.name = true)
    (plain : ∀ token ∈ tokens, token.referencedName = none) : ∀ token ∈ tokens, token.IsNamed := by
  intro token member
  refine ⟨identifiers token member, fun name refers => ?_⟩
  rw [plain token member] at refers
  cases refers

/-- The stream of a well-nested tree is accepted, with the references in the tree. -/
theorem streamAccepted_flatten {list : TokenList} {opens : Signal → Bool} {tree : Span.Tree}
    (nested : tree.WellNested) (opening : opens tree.first.signal = true)
    (named : ∀ token ∈ tree.flatten, token.IsNamed) : StreamAccepted list opens tree.flatten := by
  have passed := Span.check_flatten list nested
  refine ⟨?_, ⟨tree.first, tree.flatten.tail, tree.flatten_eq_cons, opening⟩, named⟩
  rw [foundReferences, passed]

theorem typeName_of_mem_foundReferences {list : TokenList} {tree : Span.Tree}
    (nested : tree.WellNested) {token : Token}
    (member : token ∈ foundReferences list tree.flatten) :
    token.typeName ∈ referredNames none tree := by
  rw [foundReferences, Span.check_flatten list nested] at member
  exact List.mem_map_of_mem member

namespace TypeDescription

/-- A type that defines a name opens with a signal of types, and under its name. -/
theorem first_tree {type : TypeDescription} {name : String} (defines : type.name? = some name) :
    type.tree.first.signal.opensType = true ∧ type.tree.first.typeName = name := by
  cases type with
  | single => cases defines
  | enumeration | bitSet | composite =>
    cases defines
    rw [tree]
    exact ⟨rfl, rfl⟩

theorem definedName_tokens (type : TypeDescription) :
    definedName type.tokens = some type.tree.first.typeName := by
  rw [type.tokens_eq_cons]
  rfl

end TypeDescription

/-- The header field found first is one that the description allows. -/
theorem HeaderDescription.headerField_eq (header : HeaderDescription) {schema : Schema}
    (same : schema.header = header.type.tokens) (field : HeaderField) :
    ∃ token, schema.headerField field = .ok token ∧ token.IsUnsigned := by
  obtain ⟨token, member, signal, name⟩ := header.present field
  have found : (schema.header.find? fun token =>
      token.signal == .encoding && token.name == field.name).isSome = true := by
    rw [List.find?_isSome, same]
    exact ⟨token, member, by simp [signal, name]⟩
  obtain ⟨first, found⟩ := Option.isSome_iff_exists.mp found
  have passed := List.find?_some found
  rw [Bool.and_eq_true, beq_iff_eq, beq_iff_eq] at passed
  refine ⟨first, ?_, header.unsigned first ?_ passed.1 field passed.2⟩
  · rw [Schema.headerField, found]
    rfl
  · have known := List.mem_of_find?_eq_some found
    rwa [same] at known

/-- A body that is taken apart as described is accepted. -/
theorem accepted_of_found {description : BodyDescription} {body : Body}
    (found : description.Found body) : body.Accepted := by
  induction found with
  | intro fields groups varData _ ih =>
    refine .intro fields ?_ groups ?_ ?_ varData ?_
    · intro layout member
      obtain ⟨field, _, rfl⟩ := List.mem_map.mp member
      exact List.cons_ne_nil _ _
    · intro layout member
      obtain ⟨group, _, rfl⟩ := List.mem_map.mp member
      exact ⟨group.head.unsignedLength, group.head.unsignedCount⟩
    · intro layout member
      obtain ⟨group, known, rfl⟩ := List.mem_map.mp member
      exact ih group known
    · intro layout member
      obtain ⟨data, _, rfl⟩ := List.mem_map.mp member
      exact data.unsigned

/-! ### Verification -/

namespace SchemaDescription

variable {description : SchemaDescription}

theorem filterMap_definedName (description : SchemaDescription) :
    description.schema.types.filterMap definedName = description.typeNames := by
  rw [schema, typeNames, List.filterMap_map]
  refine List.filterMap_congr fun type member => ?_
  obtain ⟨name, defines⟩ := Option.ne_none_iff_exists'.mp (description.defining type member)
  rw [Function.comp_apply, type.definedName_tokens, (type.first_tree defines).2, defines]

theorem definedNames_eq (description : SchemaDescription) :
    description.schema.definedNames = description.typeNames ++ [description.header.name] := by
  have header : description.schema.headerName? = some description.header.name := by
    rw [Schema.headerName?, schema, description.header.type.definedName_tokens,
      (TypeDescription.first_tree rfl).2]
  rw [Schema.definedNames, filterMap_definedName, header]
  rfl

section Streams

variable (fits : ∀ stream ∈ description.streams, stream.length < wordBound)
include fits

theorem header_fits : description.header.type.tokens.length < wordBound :=
  fits _ List.mem_cons_self

theorem type_fits {type : TypeDescription} (member : type ∈ description.types) :
    type.tokens.length < wordBound :=
  fits _ (List.mem_cons_of_mem _ (List.mem_append_left _ (List.mem_map_of_mem member)))

theorem message_fits {message : MessageDescription} (member : message ∈ description.messages) :
    message.tokens.length < wordBound :=
  fits _ (List.mem_cons_of_mem _ (List.mem_append_right _ (List.mem_map_of_mem member)))

/-- The references of a built schema are to the names that its description uses. -/
theorem typeName_mem_uses {token : Token} (member : token ∈ description.schema.references) :
    token.typeName ∈ description.uses := by
  have outside : none ∉ [some Signal.beginField, some .beginComposite] := by simp
  rcases List.mem_append.mp member with ofType | ofMessage
  · obtain ⟨stream, listed, found⟩ := List.mem_flatMap.mp ofType
    obtain ⟨type, known, rfl⟩ := List.mem_map.mp listed
    rw [← type.flatten_tree] at found
    have named := typeName_of_mem_foundReferences
      (TypeDescription.wellNested_tree (type_fits fits known)) found
    rw [type.referredNames_tree_of_outside outside] at named
    exact List.mem_append_left _ (List.mem_flatMap.mpr ⟨type, known, named⟩)
  · obtain ⟨stream, listed, found⟩ := List.mem_flatMap.mp ofMessage
    obtain ⟨message, known, rfl⟩ := List.mem_map.mp listed
    rw [← message.flatten_tree] at found
    have named := typeName_of_mem_foundReferences
      (MessageDescription.wellNested_tree (message_fits fits known)) found
    rw [message.referredNames_tree] at named
    exact List.mem_append_right _ (List.mem_flatMap.mpr ⟨message, known, named⟩)

/-- A built schema is verified if its names are in order. -/
theorem verify_built (wellNamed : description.WellNamed) : description.schema.verify = .ok () := by
  have identifiers := wellNamed.identifiers
  refine Schema.verify_eq_ok_iff.mpr ⟨?_, ?_, ?_, ?_, ?_, ?_⟩
  · have named := isNamed_of_isIdentifier (identifiers _ List.mem_cons_self)
      description.header.type.referencedName_tokens
    rw [schema, ← TypeDescription.flatten_tree] at named ⊢
    refine streamAccepted_flatten (TypeDescription.wellNested_tree (header_fits fits)) ?_ named
    rw [HeaderDescription.type, TypeDescription.tree]
    rfl
  · exact description.header.headerField_eq rfl
  · intro stream listed
    obtain ⟨type, known, rfl⟩ := List.mem_map.mp listed
    obtain ⟨name, defines⟩ := Option.ne_none_iff_exists'.mp (description.defining type known)
    have named := isNamed_of_isIdentifier
      (identifiers _ (List.mem_cons_of_mem _ (List.mem_append_left _ listed)))
      type.referencedName_tokens
    rw [← type.flatten_tree] at named ⊢
    exact streamAccepted_flatten (TypeDescription.wellNested_tree (type_fits fits known))
      (type.first_tree defines).1 named
  · rw [filterMap_definedName]
    exact wellNamed.unique
  · intro stream listed
    obtain ⟨message, known, rfl⟩ := List.mem_map.mp listed
    have named := isNamed_of_isIdentifier
      (identifiers _ (List.mem_cons_of_mem _ (List.mem_append_right _ listed)))
      message.referencedName_tokens
    obtain ⟨decomposed, found⟩ := MessageDescription.found_runs (message_fits fits known)
    refine ⟨?_, _, decomposed, accepted_of_found found⟩
    rw [← message.flatten_tree] at named ⊢
    exact streamAccepted_flatten (MessageDescription.wellNested_tree (message_fits fits known)) rfl
      named
  · intro token member
    rw [definedNames_eq]
    exact wellNamed.closed _ (typeName_mem_uses fits member)

end Streams

/-- **What is built is found again**: every message is taken apart into the elements of its
description at all depths, the outlines of the schema are those of the description, and the schema
is verified if its names are in order. -/
theorem decompose_built (description : SchemaDescription)
    (fits : ∀ stream ∈ description.streams, stream.length < wordBound) :
    (∀ message ∈ description.messages,
      decomposeMessage message.tokens = .ok message.body.runs ∧
        message.body.Found message.body.runs) ∧
    description.schema.outlines = .ok (description.messages.map MessageDescription.outline) ∧
    (description.WellNamed → description.schema.verify = .ok ()) := by
  refine ⟨fun message member => ?_, ?_, verify_built fits⟩
  · exact MessageDescription.found_runs (message_fits fits member)
  · rw [Schema.outlines, schema, List.mapM_map]
    exact Outcome.mapM_eq_ok fun message member =>
      MessageDescription.ofMessage_eq_outline (message_fits fits member)

end SchemaDescription

/-! ### A schema of trucks -/

/-- The usual header. -/
def usualHeader : HeaderDescription where
  name := "messageHeader"
  offset := 0
  encodedLength := 8
  members := [.single (.value "blockLength" 0 (.of .uint16)),
    .single (.value "templateId" 2 (.of .uint16)), .single (.value "schemaId" 4 (.of .uint16)),
    .single (.value "version" 6 (.of .uint16))]
  present := by
    simp only [TypeDescription.tokens, List.map_cons, List.map_nil]
    intro field
    cases field <;> decide
  unsigned := by
    have all : ∀ token ∈ messageHeader, token.signal = .encoding →
        token.encoding.primitive = some .uint16 := by decide
    simp only [TypeDescription.tokens, List.map_cons, List.map_nil]
    intro token member encoding field _
    exact ⟨.uint16, all token member encoding, rfl⟩

/-- A group with the usual dimensions. -/
def usualGroup (name : String) (id : Int32) : GroupHead where
  name := name
  id := id
  version := 0
  blockLength := 1
  dimensions := ⟨"groupSizeEncoding", 0, 4, .value "blockLength" 0 (.of .uint16),
    .value "numInGroup" 2 (.of .uint16), []⟩
  unsignedLength := ⟨.uint16, rfl, rfl⟩
  unsignedCount := ⟨.uint16, rfl, rfl⟩

/-- An enum. -/
def fuel : TypeDescription :=
  .enumeration "Fuel" 0 (.of .uint8) [("petrol", .uint 0), ("gas", .uint 1)]

/-- A composite with an enum inside. -/
def engine : TypeDescription :=
  .composite "Engine" 0 3 [.single (.value "capacity" 0 (.of .uint16)), fuel]

/-- A message with a composite, a group inside a group and a field of variable length. -/
def trucks : SchemaDescription where
  packageName := "trucks"
  id := 7
  header := usualHeader
  types := [fuel, engine]
  messages := [⟨"Truck", 1, 3, [⟨"engine", 1, 0, engine⟩],
    [.group (usualGroup "axles" 2) [⟨"load", 3, 0, .single (.value "load" 0 (.of .uint8))⟩]
      [.group (usualGroup "wheels" 4) [] [] []] []],
    [⟨"maker", 5, 0, ⟨"varDataEncoding", 0, 0, .value "length" 0 (.of .uint32),
      .value "varData" 4 (.of .uint8), []⟩, ⟨.uint32, rfl, rfl⟩⟩]⟩]
  defining := by decide

theorem trucks_streams : trucks.streams =
    let fuel := enumeration "Fuel" 0 (.of .uint8) [("petrol", .uint 0), ("gas", .uint 1)]
    let engine := composite "Engine" 0 3 [[value "capacity" 0 (.of .uint16)], fuel]
    let maker := composite "varDataEncoding" 0 0
      [[value "length" 0 (.of .uint32)], [value "varData" 4 (.of .uint8)]]
    [messageHeader, fuel, engine, message "Truck" 1 3 [field "engine" 1 0 engine,
      group "axles" 2 0 1 groupSize [field "load" 3 0 [value "load" 0 (.of .uint8)],
        group "wheels" 4 0 1 groupSize []], varData "maker" 5 0 maker]] := by
  simp only [SchemaDescription.streams, SchemaDescription.schema, trucks, HeaderDescription.type,
    usualHeader, usualGroup, fuel, engine, TypeDescription.tokens, FieldDescription.tokens,
    VarDataDescription.tokens, PairDescription.type, GroupDescription.tokens,
    BodyDescription.tokens, MessageDescription.tokens, List.map_cons, List.map_nil]
  rfl

theorem trucks_uses : trucks.uses = ["Fuel", "Engine", "Fuel"] := by
  simp [SchemaDescription.uses, trucks, usualGroup, fuel, engine, TypeDescription.inside,
    TypeDescription.uses, PairDescription.type, GroupDescription.uses, BodyDescription.uses]

theorem trucks_wellNamed : trucks.WellNamed where
  identifiers := by
    rw [trucks_streams]
    decide +kernel
  unique := by decide
  closed := by
    rw [trucks_uses]
    decide

theorem trucks_decompose_built :
    (∀ stream ∈ trucks.streams, stream.length < wordBound) ∧ trucks.WellNamed ∧
    (∀ message ∈ trucks.messages, decomposeMessage message.tokens = .ok message.body.runs ∧
      message.body.Found message.body.runs) ∧
    trucks.schema.outlines = .ok (trucks.messages.map MessageDescription.outline) ∧
    (trucks.WellNamed → trucks.schema.verify = .ok ()) := by
  have fits : ∀ stream ∈ trucks.streams, stream.length < wordBound := by
    rw [trucks_streams]
    decide
  exact ⟨fits, trucks_wellNamed, SchemaDescription.decompose_built trucks fits⟩

end Sbe.Build
