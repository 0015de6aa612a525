import Mathlib.Data.List.Find
import Sbe.Proofs.ConstantEnums
import Sbe.Proofs.Emitters
import Sbe.Proofs.Purposes
import Sbe.Proofs.Relabelling

/-!
**Generated source under a change of tokens.**

Generated source reads the names, places and types of tokens, and of their scalars what they are as
numbers and as texts. A change of tokens that keeps all this shows in three places at most: the
attributes of a token, the semantic type of a message and the variant of a constant enum. Where
these are in a relation that goes through how code is put together, so are the units of both
schemas.

* `Rewords`: such a change of tokens;
* `Code.Congruence`: a relation that goes through how code is put together;
* `Source.Rewording`: a change whose three places are in a relation;
* `accessors_reworded`, `bodyMembers_reworded`, `groupTypes_reworded`: code of fields and groups, at
  every depth;
* `Schema.generate_reworded`: whole runs.
-/

namespace Sbe

open Outcome (Alike)

/-! ### What source reads of tokens -/

/-- What source can tell of a scalar: it as an integer, as a double and as a text, and how it is
shown. -/
structure Scalar.Reading where
  int : Option Int
  double : Option Number.Double
  text : Option String
  shown : String

/-- The reading of a scalar. -/
def Scalar.reading (scalar : Scalar) : Reading :=
  ⟨scalar.toInt?, scalar.toDouble?, scalar.toText?, scalar.shown⟩

theorem Scalar.eq_text_of_reading {value other : Scalar} (same : value.reading = other.reading)
    {content : String} (isText : value = .text content) : other = .text content := by
  have texts := congrArg Reading.text same
  cases other <;> cases isText <;> cases texts
  rfl

/-- A change of tokens that keeps what source reads of them, but for their descriptive texts. -/
structure Rewords (image : Token → Token) : Prop extends Relabels image where
  typeName (token : Token) : (image token).typeName = token.typeName
  id (token : Token) : (image token).id = token.id
  version (token : Token) : (image token).version = token.version
  offset (token : Token) : (image token).offset = token.offset
  encodedLength (token : Token) : (image token).encodedLength = token.encodedLength
  primitive (token : Token) : (image token).encoding.primitive = token.encoding.primitive
  byteOrder (token : Token) : (image token).encoding.byteOrder = token.encoding.byteOrder
  presence (token : Token) : (image token).encoding.presence = token.encoding.presence
  charset (token : Token) : (image token).encoding.charset = token.encoding.charset
  least (token : Token) : (image token).encoding.least.map Scalar.reading =
    token.encoding.least.map Scalar.reading
  greatest (token : Token) :
    (image token).encoding.greatest.map Scalar.reading = token.encoding.greatest.map Scalar.reading
  null (token : Token) : (image token).encoding.null.map Scalar.reading =
    token.encoding.null.map Scalar.reading
  constant (token : Token) :
    (image token).encoding.constant.map Scalar.reading = token.encoding.constant.map Scalar.reading

namespace Rewords

variable {image : Token → Token} (rewords : Rewords image)
include rewords

theorem least? (token : Token) :
    (image token).encoding.least?.map Scalar.reading =
      token.encoding.least?.map Scalar.reading := by
  rw [Encoding.least?, Encoding.least?, Option.map_or, Option.map_or, rewords.least,
    rewords.primitive]

theorem greatest? (token : Token) :
    (image token).encoding.greatest?.map Scalar.reading =
      token.encoding.greatest?.map Scalar.reading := by
  rw [Encoding.greatest?, Encoding.greatest?, Option.map_or, Option.map_or, rewords.greatest,
    rewords.primitive]

theorem null? (token : Token) :
    (image token).encoding.null?.map Scalar.reading = token.encoding.null?.map Scalar.reading := by
  rw [Encoding.null?, Encoding.null?, Option.map_or, Option.map_or, rewords.null, rewords.primitive]

theorem tokenPrimitive (token : Token) : (image token).primitive = token.primitive := by
  rw [Token.primitive, Token.primitive, rewords.name, rewords.primitive]

theorem arrayLength (token : Token) : (image token).arrayLength = token.arrayLength := by
  rw [Token.arrayLength, Token.arrayLength, rewords.primitive, rewords.encodedLength]

theorem isConstant (token : Token) : (image token).isConstant = token.isConstant := by
  rw [Token.isConstant, Token.isConstant, rewords.presence]

end Rewords

/-- A schema with every token changed. -/
def Schema.map (image : Token → Token) (schema : Schema) : Schema :=
  { schema with
    header := schema.header.map image
    types := schema.types.map (List.map image)
    messages := schema.messages.map (List.map image) }

namespace Source

open Sbe.Text (quote)

/-! ### Literals -/

theorem literal_congr {value other : Scalar} (same : value.reading = other.reading)
    (primitive : Primitive) (name : String) :
    literal primitive value name = literal primitive other name := by
  obtain ⟨int, double, _, shown⟩ := Scalar.Reading.mk.inj same
  rw [literal, literal, int, double, shown]

/-- The literal of a declared scalar, or of the one that stands for it. -/
theorem literal_getD {declared other : Option Scalar}
    (same : declared.map Scalar.reading = other.map Scalar.reading) (primitive : Primitive)
    (default : Scalar) (name : String) :
    literal primitive (declared.getD default) name =
      literal primitive (other.getD default) name := by
  refine literal_congr ?_ primitive name
  rw [← Option.getD_map Scalar.reading, ← Option.getD_map Scalar.reading, same]

/-- One of two scalars with the same reading is a text exactly when the other is. -/
theorem ofText_congr {α : Type} (primitive : Primitive) (value other : Scalar)
    (ofText : String → α) (plain : α) :
    value.reading = other.reading →
    (match primitive, value with
      | .char, .text content => ofText content
      | _, _ => plain) =
    (match primitive, other with
      | .char, .text content => ofText content
      | _, _ => plain) := by
  intro same
  split
  · next content => rw [Scalar.eq_text_of_reading same rfl]
  · next noText =>
    split
    · next content => exact absurd (Scalar.eq_text_of_reading same.symm rfl) (noText content rfl)
    · rfl

theorem bind_toInt? {declared other : Option Scalar}
    (same : declared.map Scalar.reading = other.map Scalar.reading) :
    declared.bind Scalar.toInt? = other.bind Scalar.toInt? := by
  have whole : Scalar.toInt? = Scalar.Reading.int ∘ Scalar.reading := rfl
  rw [whole, ← Option.bind_map, same, Option.bind_map]

/-! ### Properties -/

/-- A property with every token changed. -/
@[simps field first] def Property.map (image : Token → Token) (property : Property) : Property :=
  ⟨property.field.map image, image property.first, property.others.map image⟩

namespace Property

variable {image : Token → Token}

theorem described_map (property : Property) :
    (property.map image).described = image property.described := by
  obtain ⟨field, first, others⟩ := property
  cases field with
  | none => rfl
  | some field => rfl

theorem ofField_map (layout : FieldLayout) :
    ofField (layout.map image) = (ofField layout).map (map image) := by
  obtain ⟨field, type⟩ := layout
  cases type with
  | nil => rfl
  | cons first others => rfl

variable (rewords : Rewords image) (property : Property)
include rewords

theorem name_map : (property.map image).name = property.name := by
  rw [name, described_map, rewords.name, name]

theorem since_map : (property.map image).since = property.since := by
  rw [since, described_map, rewords.version, since]

theorem isConstant_map : (property.map image).isConstant = property.isConstant := by
  have tokens : Token.isConstant ∘ image = Token.isConstant := funext rewords.isConstant
  rw [isConstant, isConstant, map_first, map_field, rewords.isConstant, Option.map_map, tokens]

theorem constant?_map :
    (property.map image).constant?.map Scalar.reading = property.constant?.map Scalar.reading := by
  have field :
      ((property.field.map image).bind fun field => field.encoding.constant).map Scalar.reading =
        (property.field.bind fun field => field.encoding.constant).map Scalar.reading := by
    cases property.field with
    | none => rfl
    | some field => exact rewords.constant field
  rw [constant?, constant?, Option.map_or, Option.map_or, map_first, map_field, rewords.constant,
    field]

theorem isShown_map : (property.map image).isShown = property.isShown := by
  rw [isShown, isShown, isConstant_map rewords, map_first, rewords.encodedLength]

theorem isGuarded_map (side : Side) (scope : Scope) :
    (property.map image).isGuarded side scope = property.isGuarded side scope := by
  rw [isGuarded, isGuarded, since_map rewords]

end Property

section

variable {image : Token → Token} (rewords : Rewords image)
include rewords

theorem charset_map (token : Token) : charset (image token) = charset token := by
  rw [charset, charset, rewords.charset, rewords.name]

theorem arrayAccessors_map (property : Property) (primitive : Primitive) (accessor : String)
    (side : Side) (guarded : Bool) :
    arrayAccessors (property.map image) primitive accessor side guarded =
      arrayAccessors property primitive accessor side guarded := by
  simp only [arrayAccessors, charArrayReads, Property.name_map rewords, Property.since_map rewords,
    Property.map_first, charset_map rewords, rewords.arrayLength, rewords.offset, rewords.byteOrder]

theorem constantText_map (property : Property) (value accessor : String) (side : Side) :
    constantText (property.map image) value accessor side =
      constantText property value accessor side := by
  simp only [constantText, Property.name_map rewords, Property.map_first, charset_map rewords]

theorem constantAccessors_map (settings : Settings) (property : Property) (primitive : Primitive)
    (side : Side) :
    constantAccessors settings (property.map image) primitive side =
      constantAccessors settings property primitive side := by
  simp only [constantAccessors, constantText_map rewords, Property.name_map rewords]
  refine bind_congr fun accessor => ?_
  refine Outcome.ofOption_bind_congr (Property.constant?_map rewords property)
    fun value other same => ?_
  rw [literal_congr same]
  exact ofText_congr primitive value other _ _ same

theorem primitiveAccessors_map (settings : Settings) (property : Property) (side : Side)
    (scope : Scope) :
    primitiveAccessors settings (property.map image) side scope =
      primitiveAccessors settings property side scope := by
  simp only [primitiveAccessors, Property.name_map rewords, Property.since_map rewords,
    Property.map_first, Property.isConstant_map rewords, Property.isGuarded_map rewords,
    rewords.tokenPrimitive, rewords.arrayLength, rewords.offset, rewords.byteOrder,
    literal_getD (rewords.null? property.first), literal_getD (rewords.least? property.first),
    literal_getD (rewords.greatest? property.first), constantAccessors_map rewords,
    arrayAccessors_map rewords]

theorem viewAccessors_map (settings : Settings) (property : Property) (side : Side)
    (scope : Scope) :
    viewAccessors settings (property.map image) side scope =
      viewAccessors settings property side scope := by
  simp only [viewAccessors, Property.name_map rewords, Property.since_map rewords,
    Property.map_first, Property.isGuarded_map rewords, rewords.typeName, rewords.offset]

/-! ### Fields of variable length -/

theorem maxLength_map (length : Token) : maxLength (image length) = maxLength length := by
  rw [maxLength, maxLength, bind_toInt? (rewords.greatest? length)]

theorem varDataReads_map (layout : VarDataLayout) (length : Primitive) (accessor upper : String)
    (isText : Bool) : varDataReads (layout.map image) length accessor upper isText =
      varDataReads layout length accessor upper isText := by
  simp only [varDataReads, VarDataLayout.map_varData, VarDataLayout.map_length, rewords.version,
    rewords.byteOrder]

theorem varDataWrites_map (layout : VarDataLayout) (length : Primitive) (accessor upper : String)
    (isText : Bool) : varDataWrites (layout.map image) length accessor upper isText =
      varDataWrites layout length accessor upper isText := by
  simp only [varDataWrites, VarDataLayout.map_varData, VarDataLayout.map_length, rewords.name,
    rewords.byteOrder]

/-! ### Functions that show codecs -/

theorem propertyEntry_map (settings : Settings) (scope : Scope) (property : Property) :
    propertyEntry settings scope (property.map image) = propertyEntry settings scope property := by
  simp only [propertyEntry, entryValue, Property.isShown_map rewords, Property.name_map rewords,
    Property.map_first, Property.isGuarded_map rewords, rewords.signal, rewords.arrayLength,
    rewords.primitive]

theorem compositeRender_map (settings : Settings) (properties : List Property) :
    compositeRender settings (properties.map (.map image)) =
      compositeRender settings properties := by
  simp only [compositeRender, List.mapM_map, Function.comp_def, propertyEntry_map rewords]

theorem groupEntry_map (settings : Settings) (layout : GroupLayout) :
    groupEntry settings (layout.map image) = groupEntry settings layout := by
  simp only [groupEntry, GroupLayout.map_group, rewords.name]

theorem varDataEntry_map (settings : Settings) (layout : VarDataLayout) :
    varDataEntry settings (layout.map image) = varDataEntry settings layout := by
  simp only [varDataEntry, VarDataLayout.map_varData, VarDataLayout.map_data, rewords.name,
    rewords.charset]

theorem bodyRender_map (settings : Settings) (fields : List Property) (groups : List GroupLayout)
    (varData : List VarDataLayout) :
    bodyRender settings (fields.map (.map image)) (groups.map (.map image))
        (varData.map (.map image)) = bodyRender settings fields groups varData := by
  simp only [bodyRender, List.mapM_map, Function.comp_def, propertyEntry_map rewords,
    groupEntry_map rewords, varDataEntry_map rewords]

/-! ### Enums and sets -/

omit rewords in
theorem inner_map (tokens : List Token) : inner (tokens.map image) = (inner tokens).map image := by
  rw [inner, inner, List.map_dropLast, List.map_tail]

theorem enumValue_map (settings : Settings) (primitive : Primitive) (token : Token) :
    enumValue settings primitive (image token) = enumValue settings primitive token := by
  simp only [enumValue, rewords.name]
  refine Outcome.ofOption_bind_congr (rewords.constant token) fun value other same => ?_
  rw [literal_congr same]

theorem enumUnit_map (settings : Settings) (first : Token) (tokens : List Token) :
    enumUnit settings (image first) (tokens.map image) = enumUnit settings first tokens := by
  simp only [enumUnit, rewords.name, rewords.typeName, rewords.tokenPrimitive,
    literal_getD (rewords.null? first), inner_map, List.mapM_map, Function.comp_def,
    enumValue_map rewords]

theorem choice_map (settings : Settings) (primitive : Primitive) (token : Token) :
    choice settings primitive (image token) = choice settings primitive token := by
  simp only [choice, rewords.name, bind_toInt? (rewords.constant token)]

theorem headerPrimitive_map (schema : Schema) (field : HeaderField) :
    (schema.map image).headerPrimitive field = schema.headerPrimitive field := by
  have found : (schema.map image).headerField field = (schema.headerField field).map image := by
    show Outcome.ofOption _ ((schema.header.map image).find? _) = _
    rw [List.find?_map, Outcome.ofOption_map]
    simp only [Function.comp_def, rewords.signal, rewords.name]
    rfl
  exact Outcome.bind_eq_of_map found fun token _ => rewords.tokenPrimitive token

theorem schemaConstants_map (schema : Schema) :
    schemaConstants (schema.map image) = schemaConstants schema := by
  simp only [schemaConstants, headerPrimitive_map rewords]
  rfl

theorem view_map (settings : Settings) (schemaLines : Code) (first : Token) (side : Side)
    (members : Code) :
    view settings schemaLines (image first) side members =
      view settings schemaLines first side members := by
  simp only [view, rewords.typeName, rewords.encodedLength]

theorem setUnit_map (settings : Settings) (schema : Schema) (first : Token) (tokens : List Token)
    (side : Side) :
    setUnit settings (schema.map image) (image first) (tokens.map image) side =
      setUnit settings schema first tokens side := by
  simp only [setUnit, rewords.tokenPrimitive, rewords.name, rewords.byteOrder, inner_map,
    List.mapM_map, Function.comp_def, choice_map rewords, schemaConstants_map rewords,
    view_map rewords]

/-! ### Members and groups -/

theorem members_map (index : Nat) (tokens : List Token) :
    members index (tokens.map image) = (members index tokens).map (List.map (.map image)) := by
  induction index, tokens using Layout.scan_induct with
  | nil index => simp [members, Except.map]
  | cons index token rest ih =>
    rw [List.map_cons, members, members]
    simp only [rewords.signal, rewords.span, ← List.map_take, ← List.map_drop, List.length_map]
    generalize (if token.signal.isBegin then max token.span 1 else 1) = span
    split
    · rfl
    · have short : (rest.drop (span - 1)).length ≤ rest.length := by
        rw [List.length_drop]
        omega
      exact Outcome.bind_eq_map (ih _ _ short) fun later _ => rfl

theorem groupAccessors_map (settings : Settings) (path : String) (side : Side)
    (layout : GroupLayout) :
    groupAccessors settings path side (layout.map image) =
      groupAccessors settings path side layout := by
  simp only [groupAccessors, groupName, GroupLayout.map_group, GroupLayout.map_numInGroup,
    rewords.name, rewords.id, rewords.version, rewords.tokenPrimitive]

theorem groupReads_map (layout : GroupLayout) (blockLength numInGroup : Primitive) :
    groupReads (layout.map image) blockLength numInGroup =
      groupReads layout blockLength numInGroup := by
  simp only [groupReads, GroupLayout.map_blockLength, GroupLayout.map_numInGroup, rewords.offset,
    rewords.byteOrder]

theorem groupWrites_map (layout : GroupLayout) (blockLength numInGroup : Primitive) :
    groupWrites (layout.map image) blockLength numInGroup =
      groupWrites layout blockLength numInGroup := by
  simp only [groupWrites, GroupLayout.map_group, GroupLayout.map_blockLength,
    GroupLayout.map_numInGroup, rewords.name, rewords.offset, rewords.byteOrder,
    literal_getD (rewords.least? layout.numInGroup),
    literal_getD (rewords.greatest? layout.numInGroup)]

theorem headerTypes_map (schema : Schema) :
    headerTypes (schema.map image) = headerTypes schema := by
  simp only [headerTypes, headerPrimitive_map rewords]

end

/-- A field and its accessors. -/
def fieldAccessors (settings : Settings) (side : Side) (layout : FieldLayout) :
    Result (Property × Code) := do
  let property ← Property.ofField layout
  pure (property, ← accessors settings side .body property)

theorem map_eq_map_of_forall₂ {α β γ : Type} {relation : α → β → Prop} {items : List α}
    {twins : List β} (related : List.Forall₂ relation items twins) {image : α → γ} {twin : β → γ}
    (same : ∀ item other, relation item other → image item = twin other) :
    items.map image = twins.map twin := by
  rw [← List.forall₂_eq_eq_eq, List.forall₂_map_left_iff, List.forall₂_map_right_iff]
  exact related.imp same

/-! ### Relations between code -/

/-- A relation between code that goes through how code is put together. -/
structure Code.Congruence (relation : Code → Code → Prop) : Prop where
  refl (code : Code) : relation code code
  append {code twin other twins : Code} (first : relation code twin)
    (second : relation other twins) : relation (code ++ other) (twin ++ twins)
  indent {code twin : Code} (related : relation code twin) : relation code.indent twin.indent

namespace Code.Congruence

variable {relation : Code → Code → Prop} (congruence : Code.Congruence relation)
include congruence

theorem flatten {codes twins : List Code} (each : List.Forall₂ relation codes twins) :
    relation codes.flatten twins.flatten := by
  induction each with
  | nil => exact congruence.refl _
  | cons first _ ih =>
    rw [List.flatten_cons, List.flatten_cons]
    exact congruence.append first ih

variable {code twin : Code} (related : relation code twin)
include related

theorem before (back : Code) : relation (code ++ back) (twin ++ back) :=
  congruence.append related (congruence.refl back)

theorem after (front : Code) : relation (front ++ code) (front ++ twin) :=
  congruence.append (congruence.refl front) related

theorem between (front back : Code) : relation (front ++ code ++ back) (front ++ twin ++ back) :=
  congruence.before (congruence.after related front) back

theorem spaced : relation (Code.spaced code) (Code.spaced twin) := congruence.after related [""]

theorem block (head : String) : relation (Code.block head code) (Code.block head twin) :=
  congruence.between (congruence.indent related) [head ++ " \x7b"] ["\x7d"]

theorem function (signature : String) :
    relation (Code.function signature code) (Code.function signature twin) :=
  congruence.spaced (congruence.block related _)

end Code.Congruence

/-- Whether a token is an enum value that is the same scalar. -/
def isVariantOf (value : Scalar) (token : Token) : Bool :=
  token.signal == .validValue && (token.encoding.constant.map fun constant =>
    constant.same value).getD false

/-- The name that a constant enum has for its variant. -/
def Property.variantName? (property : Property) : Option String :=
  property.constant?.bind fun value =>
    (value.toText?.bind afterLastPoint?).or ((((property.first :: property.others).find?
        (isVariantOf value)).map Token.name).or value.toText?)

theorem constantVariant_eq (settings : Settings) (property : Property) :
    constantVariant settings property =
      Outcome.ofOption (.missingConstant property.name) property.variantName? >>=
        settings.typeName := by
  unfold constantVariant Property.variantName?
  cases property.constant? with
  | none => rfl
  | some value => rfl

/-- A change of tokens that code shows up to a relation. The variants of constant enums stay the
same where a condition on properties holds. -/
structure Rewording (relation : Code → Code → Prop) (image : Token → Token)
    (holds : Property → Prop) : Prop extends Rewords image, Code.Congruence relation where
  attributes (accessor : String) (token : Token) :
    relation (metaAttributes accessor token) (metaAttributes accessor (image token))
  semanticType (token : Token) : relation
    [Code.constant "SEMANTIC_TYPE" "&'static str" (quote (token.encoding.semanticType.getD ""))]
    [Code.constant "SEMANTIC_TYPE" "&'static str"
      (quote ((image token).encoding.semanticType.getD ""))]
  variants {property : Property} (held : holds property)
    (opens : property.first.signal = .beginEnum)
    (isConstant : property.isConstant) {value other : Scalar}
      (fixed : property.constant? = some value)
    (imaged : (property.map image).constant? = some other) {token : Token}
    (member : token ∈ property.first :: property.others) : isVariantOf other (image token) =
      isVariantOf value token

section

variable {relation : Code → Code → Prop} {image : Token → Token} {holds : Property → Prop}
  (rewording : Rewording relation image holds)
include rewording

/-! ### Accessors -/

theorem propertyConstants_reworded (settings : Settings) (property : Property) :
    Alike relation (propertyConstants settings property)
      (propertyConstants settings (property.map image)) := by
  unfold propertyConstants
  simp only [Property.name_map rewording.toRewords, Property.map_first, Property.map_field,
    rewording.offset, rewording.encodedLength]
  cases property.field with
  | none => exact .refl rewording.refl _
  | some field =>
    refine .bind_same (settings.propertyName property.name) fun accessor => ?_
    simp only [rewording.id, rewording.version]
    exact rewording.after (rewording.attributes accessor field) _

theorem variantName?_map {property : Property} (held : holds property)
    (opens : property.first.signal = .beginEnum) (isConstant : property.isConstant) :
    (property.map image).variantName? = property.variantName? := by
  have readings := Property.constant?_map rewording.toRewords property
  unfold Property.variantName?
  cases fixed : property.constant? with
  | none =>
    rw [fixed, Option.map_none, Option.map_eq_none_iff] at readings
    rw [readings]
    rfl
  | some value =>
    rw [fixed, Option.map_some, Option.map_eq_some_iff] at readings
    obtain ⟨other, imaged, same⟩ := readings
    have text : other.toText? = value.toText? := congrArg Scalar.Reading.text same
    have byValue :
        (((property.map image).first :: (property.map image).others).find? (isVariantOf other)).map
            Token.name =
          ((property.first :: property.others).find? (isVariantOf value)).map Token.name := by
      show (((property.first :: property.others).map image).find? _).map Token.name = _
      have names : Token.name ∘ image = Token.name := funext rewording.name
      rw [List.find?_map, Option.map_map, names]
      exact congrArg _ (List.find?_congr fun token member =>
        rewording.variants held opens isConstant fixed imaged member)
    rw [imaged, Option.bind_some, Option.bind_some, text, byValue]

theorem enumAccessors_map (settings : Settings) {property : Property} (held : holds property)
    (opens : property.first.signal = .beginEnum) (side : Side) (scope : Scope) :
    enumAccessors settings (property.map image) side scope =
      enumAccessors settings property side scope := by
  simp only [enumAccessors, Property.name_map rewording.toRewords,
    Property.since_map rewording.toRewords, Property.map_first,
    Property.isConstant_map rewording.toRewords, Property.isGuarded_map rewording.toRewords,
    rewording.typeName, rewording.toRewords.tokenPrimitive, rewording.byteOrder, rewording.offset]
  refine bind_congr fun accessor => bind_congr fun enumName => ?_
  split
  · next isConstant =>
    simp only [constantVariant_eq, Property.name_map rewording.toRewords,
      variantName?_map rewording held opens isConstant]
  · rfl

theorem accessors_reworded (settings : Settings) (side : Side) (scope : Scope)
    {property : Property} (held : holds property) :
    Alike relation (accessors settings side scope property)
      (accessors settings side scope (property.map image)) := by
  unfold accessors
  refine (propertyConstants_reworded rewording settings property).bind
    fun constants twins related => ?_
  simp only [Property.map_first, rewording.signal, primitiveAccessors_map rewording.toRewords,
    viewAccessors_map rewording.toRewords, Layout.misplaced_map rewording.toRelabels]
  have behind (functions : Code) : Alike relation (pure (constants ++ functions) : Result Code)
      (pure (twins ++ functions)) := rewording.before related functions
  split
  · exact .bind_same _ behind
  · next opens =>
    rw [enumAccessors_map rewording settings held opens]
    exact .bind_same _ behind
  · exact .bind_same _ behind
  · exact .bind_same _ behind
  · exact .bind_same _ behind

theorem varDataAccessors_reworded (settings : Settings) (side : Side) (layout : VarDataLayout) :
    Alike relation (varDataAccessors settings side layout)
      (varDataAccessors settings side (layout.map image)) := by
  unfold varDataAccessors
  simp only [varDataReads_map rewording.toRewords, varDataWrites_map rewording.toRewords,
    maxLength_map rewording.toRewords, VarDataLayout.map_varData, VarDataLayout.map_length,
    VarDataLayout.map_data, rewording.name, rewording.toRewords.tokenPrimitive, rewording.charset,
    rewording.id, rewording.version, rewording.encodedLength, charset_map rewording.toRewords]
  refine .bind_same _ fun accessor => .bind_same _ fun length => ?_
  have between (front back : Code) :
      Alike relation (pure (front ++ metaAttributes accessor layout.data ++ back) : Result Code)
        (pure (front ++ metaAttributes accessor (image layout.data) ++ back)) :=
    rewording.between (rewording.attributes accessor layout.data) front back
  split
  · rw [Outcome.refuse_bind, Outcome.refuse_bind]
    exact .refl rewording.refl _
  · split
    · exact .bind_same _ fun set => between _ _
    · exact .bind_same _ fun set => between _ _

/-! ### Units of composites -/

theorem view_reworded (settings : Settings) (schemaLines : Code) (first : Token) (side : Side)
    {members twins : Code} (related : relation members twins) :
    relation (view settings schemaLines first side members)
      (view settings schemaLines first side twins) := by
  unfold view
  refine rewording.between (rewording.spaced (rewording.block ?_ _)) _ _
  exact rewording.after related _

theorem compositeUnit_reworded (settings : Settings) (schema : Schema) (first : Token)
    {tokens : List Token}
    (held : ∀ properties, members 0 (inner
      tokens) = .ok properties → ∀ property ∈ properties, holds property) (side : Side) :
    Alike relation (compositeUnit settings schema first tokens side)
      (compositeUnit settings (schema.map image) (image first) (tokens.map image) side) := by
  unfold compositeUnit
  rw [inner_map, schemaConstants_map rewording.toRewords]
  refine .bind_map (members_map rewording.toRewords 0 (inner tokens)) fun properties found => ?_
  refine .bind_same (schemaConstants schema) fun schemaLines => ?_
  have each := Alike.mapM_map fun property member =>
    accessors_reworded rewording settings side .composite (held properties found property member)
  refine each.bind fun functions twins related => ?_
  simp only [compositeRender_map rewording.toRewords, rewording.typeName,
    view_map rewording.toRewords]
  have members (render : Code) : relation (functions.flatten ++ render) (twins.flatten ++ render) :=
    rewording.before (rewording.flatten related) render
  cases side with
  | decoder =>
    refine .bind_same (compositeRender settings properties) fun render => ?_
    exact rewording.before (view_reworded rewording settings schemaLines first _ (members render)) _
  | encoder =>
    exact rewording.before (view_reworded rewording settings schemaLines first _ (members [])) _

/-! ### Bodies -/

theorem fieldAccessors_reworded (settings : Settings) (side : Side) {layout : FieldLayout}
    (held : ∀ property, Property.ofField layout = .ok property → holds property) :
    Alike (fun field twin => twin.1 = field.1.map image ∧ relation field.2 twin.2)
      (fieldAccessors settings side layout) (fieldAccessors settings side (layout.map image)) := by
  refine .bind_map (Property.ofField_map layout) fun property made => ?_
  refine (accessors_reworded rewording settings side .body (held property made)).bind
    fun code twin related => ?_
  exact ⟨rfl, related⟩

theorem bodyMembers_reworded (settings : Settings) {body : Body}
    (held : ∀ property, Declares body property → holds property) (path : String) (side : Side) :
    Alike relation (bodyMembers settings body path side)
      (bodyMembers settings (body.map image) path side) := by
  unfold bodyMembers
  refine .bind_map (Layout.splitFields_map rewording.toRelabels 0 body.fields)
    fun layouts found => ?_
  have each := Alike.mapM_map fun layout member => fieldAccessors_reworded rewording settings side
    fun property made => held property (.field found member made)
  refine each.bind fun fields twins related => ?_
  refine .bind_map (Layout.splitGroups_map rewording.toRelabels 0 body.groups) fun groups _ => ?_
  rw [Outcome.mapM_map_eq
    fun layout _ => groupAccessors_map rewording.toRewords settings path side layout]
  refine .bind_same _ fun groupCode => ?_
  refine .bind_map (Layout.splitVarData_map rewording.toRelabels 0 body.varData) fun varData _ => ?_
  have eachVarData := Alike.mapM_map fun layout (_ : layout ∈ varData) =>
    varDataAccessors_reworded rewording settings side layout
  refine eachVarData.bind fun varDataCode varDataTwins varDataRelated => ?_
  have properties : twins.map Prod.fst = (fields.map Prod.fst).map (.map image) := by
    rw [List.map_map]
    exact (map_eq_map_of_forall₂ related fun _ _ pair => pair.1.symm).symm
  have code : List.Forall₂ relation (fields.map Prod.snd) (twins.map Prod.snd) := by
    rw [List.forall₂_map_left_iff, List.forall₂_map_right_iff]
    exact related.imp fun _ _ pair => pair.2
  have all (render : Code) : relation
      ((fields.map Prod.snd).flatten ++ groupCode.flatten ++ varDataCode.flatten ++ render)
      ((twins.map Prod.snd).flatten ++ groupCode.flatten ++ varDataTwins.flatten ++ render) :=
    rewording.before (rewording.append (rewording.before (rewording.flatten code) _)
      (rewording.flatten varDataRelated)) render
  cases side with
  | decoder =>
    simp only [properties, bodyRender_map rewording.toRewords]
    exact .bind_same _ fun render => all render
  | encoder => exact all []

/-! ### Types of groups -/

theorem groupType_reworded (settings : Settings) {layout : GroupLayout}
    (held : ∀ property, Declares layout.body property → holds property) (path : String)
    (side : Side) :
    Alike relation (groupType settings layout path side)
      (groupType settings (layout.map image) path side) := by
  simp only [groupType, groupReads_map rewording.toRewords, groupWrites_map rewording.toRewords,
    GroupLayout.map_group, GroupLayout.map_dimensions, GroupLayout.map_blockLength,
    GroupLayout.map_numInGroup, GroupLayout.map_body, groupName, groupPath, rewording.name,
    rewording.toRewords.tokenPrimitive, rewording.encodedLength]
  refine .bind_same _
    fun blockLength => .bind_same _ fun numInGroup => .bind_same _ fun length => ?_
  have members :=
    bodyMembers_reworded rewording settings held (path ++ Name.codecName layout.group.name "") side
  cases side with
  | decoder =>
    refine members.bind fun code twin related => ?_
    exact rewording.after (rewording.spaced (rewording.block (rewording.between related _ _) _)) _
  | encoder =>
    refine .bind_same _ fun opening => members.bind fun code twin related => ?_
    exact rewording.after (rewording.spaced (rewording.block (rewording.between related _ _) _)) _

/-- At every depth. -/
theorem groupTypes_reworded (settings : Settings) {body : Body}
    (held : ∀ property, Declares body property → holds property) (path : String) (side : Side) :
    Alike relation (groupTypes settings body path side)
      (groupTypes settings (body.map image) path side) := by
  induction size : body.size using Nat.strongRecOn generalizing body path with
  | ind total ih =>
    rw [groupTypes_eq, groupTypes_eq]
    refine .bind_map (Layout.splitGroups_map rewording.toRelabels 0 body.groups)
      fun layouts found => ?_
    refine (Alike.mapM_map fun layout member => ?_).bind
      fun types twins related => rewording.flatten related
    have inside : ∀ property, Declares layout.body property → holds property :=
      fun property declares => held property (.group found member declares)
    have small := Layout.size_lt_of_mem_splitGroups found member
    have wide : body.groups.length ≤ body.size := by
      unfold Body.size
      omega
    refine (groupType_reworded rewording settings inside path side).bind
      fun type twin sameType => ?_
    rw [GroupLayout.map_group, groupPath, groupPath, rewording.name]
    refine (ih layout.body.size (by omega) inside _ rfl).bind fun nested inner sameNested => ?_
    exact rewording.append sameType sameNested

/-! ### Units of messages -/

theorem messageUnit_reworded (settings : Settings) (schema : Schema) (header : String)
    (first : Token) {tokens : List Token}
    (held : ∀ body, Layout.decomposeMessage tokens = .ok body →
      ∀ property, Declares body property → holds property) (side : Side) :
    Alike relation (messageUnit settings schema header first tokens side)
      (messageUnit settings (schema.map image) header (image first) (tokens.map image) side) := by
  unfold messageUnit
  simp only [headerTypes_map rewording.toRewords, schemaConstants_map rewording.toRewords,
    rewording.name, rewording.encodedLength, rewording.id]
  refine .bind_map (Layout.decomposeMessage_map rewording.toRelabels tokens) fun body found => ?_
  refine .bind_same _ fun types => .bind_same _ fun blockLength => .bind_same _ fun templateId => ?_
  refine .bind_same _ fun schemaLines => ?_
  refine (bodyMembers_reworded rewording settings (held body found) _ side).bind
    fun members twins related => ?_
  refine (groupTypes_reworded rewording settings (held body found) _ side).bind
    fun groups inner groupsRelated => ?_
  refine Alike.pure (rewording.before (rewording.append (rewording.between
    (rewording.spaced (rewording.block ?_ _)) _ _) groupsRelated) _)
  refine rewording.before (rewording.append ?_ related) _
  -- The semantic type comes early in the block; five functions of every message stand between it
  -- and the members.
  have early := rewording.semanticType first
  exact rewording.before (rewording.before
      (rewording.before (rewording.before (rewording.before (rewording.between early _ _) _) _) _)
      _) _

end

end Source

/-! ### Runs -/

namespace Plan

open Source (Property Rewording)

namespace Purpose

/-- A purpose with every token changed. -/
def map (image : Token → Token) : Purpose → Purpose
  | enumeration first tokens => enumeration (image first) (tokens.map image)
  | bitSet first tokens side => bitSet (image first) (tokens.map image) side
  | composite first tokens side => composite (image first) (tokens.map image) side
  | message header first tokens side => message header (image first) (tokens.map image) side
  | nothing cause => nothing cause

/-- A condition holds of every member of a composite, and of every field of a message at any
depth. -/
def Every (holds : Property → Prop) : Purpose → Prop
  | composite _ tokens _ => ∀ properties, Source.members 0 (Source.inner tokens) = .ok properties →
      ∀ property ∈ properties, holds property
  | message _ _ tokens _ => ∀ body, Layout.decomposeMessage tokens = .ok body →
      ∀ property, Source.Declares body property → holds property
  | _ => True

theorem every_of_forall {holds : Property → Prop} (all : ∀ property, holds property)
    (purpose : Purpose) : purpose.Every holds := by
  cases purpose with
  | composite => exact fun _ _ property _ => all property
  | message => exact fun _ _ property _ => all property
  | enumeration | bitSet | nothing => trivial

section

variable {image : Token → Token} (rewords : Rewords image)
include rewords

theorem name_map (purpose : Purpose) : (purpose.map image).name = purpose.name := by
  cases purpose with
  | enumeration first => exact congrArg Name.unitName (rewords.typeName first)
  | bitSet first _ side | composite first _ side =>
    exact congrArg (unitName · side) (rewords.typeName first)
  | message _ first _ side => exact congrArg (unitName · side) (rewords.name first)
  | nothing => rfl

theorem ofType_map (tokens : List Token) :
    ofType (tokens.map image) = (ofType tokens).map (map image) := by
  cases tokens with
  | nil => rfl
  | cons first rest =>
    rw [List.map_cons, ofType, ofType, rewords.signal, Layout.misplaced_map rewords.toRelabels]
    cases first.signal <;> rfl

omit rewords in
theorem ofMessage_map (header : String) (tokens : List Token) :
    ofMessage header (tokens.map image) = (ofMessage header tokens).map (map image) := by
  cases tokens with
  | nil => rfl
  | cons first rest => rfl

end

theorem code_reworded {relation : Source.Code → Source.Code → Prop} {image : Token → Token}
    {holds : Property → Prop} (rewording : Rewording relation image holds) (settings : Settings)
    (schema : Schema) {purpose : Purpose} (every : purpose.Every holds) :
    Alike relation (purpose.code settings schema)
      ((purpose.map image).code settings (schema.map image)) := by
  cases purpose with
  | enumeration first tokens =>
    exact .of_eq rewording.refl (Source.enumUnit_map rewording.toRewords settings first tokens)
  | bitSet first tokens side =>
    exact .of_eq rewording.refl
      (Source.setUnit_map rewording.toRewords settings schema first tokens side)
  | composite first tokens side =>
    exact Source.compositeUnit_reworded rewording settings schema first every side
  | message header first tokens side =>
    exact Source.messageUnit_reworded rewording settings schema header first every side
  | nothing cause => exact (rfl : Halt.refused cause = .refused cause)

end Purpose

/-- Two runs whose purposes have the same names, and code that ends alike. -/
theorem run_image {relation : Source.Code → Source.Code → Prop} {settings other : Settings}
    {schema twin : Schema} {image : Purpose → Purpose}
    (names : ∀ purpose, (image purpose).name = purpose.name) {purposes : List Purpose}
    (each : ∀ purpose ∈ purposes, Alike relation (purpose.code settings schema) ((image
      purpose).code other twin)) :
    (run (purposes.map (Purpose.step settings schema))).ending =
        (run ((purposes.map image).map (Purpose.step other twin))).ending ∧
      List.Forall₂ (fun unit twin => unit.name = twin.name ∧
          ∃ code others, relation code others ∧ unit.code = code.text ∧ twin.code = others.text)
        (run (purposes.map (Purpose.step settings schema))).units
        (run ((purposes.map image).map (Purpose.step other twin))).units := by
  induction purposes with
  | nil =>
    rw [List.map_nil, List.map_nil, List.map_nil]
    exact ⟨rfl, .nil⟩
  | cons purpose rest ih =>
    obtain ⟨alike, later⟩ := List.forall_mem_cons.mp each
    replace ih := ih later
    rw [List.map_cons, List.map_cons, List.map_cons, run_cons, run_cons]
    cases emitted : purpose.code settings schema with
    | error halt =>
      cases imaged : (image purpose).code other twin with
      | ok => rw [emitted, imaged] at alike; exact alike.elim
      | error same =>
        rw [emitted, imaged] at alike
        exact ⟨congrArg some alike, .nil⟩
    | ok code =>
      cases imaged : (image purpose).code other twin with
      | error => rw [emitted, imaged] at alike; exact alike.elim
      | ok others =>
        rw [emitted, imaged] at alike
        exact ⟨ih.1, .cons ⟨(names purpose).symm, code, others, alike, rfl, rfl⟩ ih.2⟩

end Plan

namespace Schema

open Plan

variable {image : Token → Token}

theorem type?_map (rewords : Rewords image) (schema : Schema) (name : String) :
    (schema.map image).type? name = (schema.type? name).map (List.map image) := by
  have defined (tokens : List Token) : definedName (tokens.map image) = definedName tokens := by
    cases tokens with
    | nil => rfl
    | cons first rest => exact congrArg some (rewords.typeName first)
  show (schema.types.map (List.map image)).find? _ = _
  rw [List.find?_map]
  simp only [Function.comp_def, defined]
  rfl

theorem purposes_map (rewords : Rewords image) (schema : Schema) :
    (schema.map image).purposes = schema.purposes.map (.map image) := by
  have types : (schema.types.map (List.map image)).flatMap Purpose.ofType =
      (schema.types.flatMap Purpose.ofType).map (.map image) := by
    rw [List.flatMap_map, List.map_flatMap]
    exact congrArg schema.types.flatMap (funext (Purpose.ofType_map rewords))
  have messages (header : String) :
      (schema.messages.map (List.map image)).flatMap (Purpose.ofMessage header) =
        (schema.messages.flatMap (Purpose.ofMessage header)).map (.map image) := by
    rw [List.flatMap_map, List.map_flatMap]
    exact congrArg schema.messages.flatMap (funext (Purpose.ofMessage_map header))
  have header : (schema.map image).header = schema.header.map image := rfl
  unfold purposes
  rw [header]
  cases schema.header with
  | nil => rfl
  | cons first rest =>
    rw [List.map_cons]
    simp only [rewords.typeName, type?_map rewords, Option.isSome_map]
    rw [List.map_append, List.map_append, ← types, ← messages]
    refine congrArg₂ (· ++ ·) (congrArg (· ++ _) ?_) rfl
    split
    · rfl
    · rfl

/-- A schema and the same with every token changed give runs that end in the same way, after units
of the same names whose code is in the relation. -/
theorem generate_reworded {relation : Source.Code → Source.Code → Prop}
    {holds : Source.Property → Prop} (rewording : Source.Rewording relation image holds)
    (settings : Settings) {schema : Schema}
    (every : ∀ purpose ∈ schema.purposes, purpose.Every holds) :
    (schema.generate settings).ending = ((schema.map image).generate settings).ending ∧
    List.Forall₂ (fun unit twin => unit.name = twin.name ∧
        ∃ code others, relation code others ∧ unit.code = code.text ∧ twin.code = others.text)
      (schema.generate settings).units ((schema.map image).generate settings).units := by
  simp only [generate, ofSchema_eq, purposes_map rewording.toRewords]
  exact run_image (Purpose.name_map rewording.toRewords) fun purpose member =>
    Purpose.code_reworded rewording settings schema (every purpose member)

end Schema

end Sbe
