import Sbe.Proofs.GuardLines
import Sbe.Source.Accessor
import Sbe.Source.VarData

/-!
**Guards of accessors.**

Every accessor that reads what an older message may lack starts with a guard. How many there are is
decided in different places: a single value, an array and an enum have one function that reads the
wire, a text has three, and a constant has none.

* `wireReads`: the number of functions that read a field from the wire;
* `accessors_yields`: the guards of a property;
* `varDataAccessors_yields`: the guards of a field of variable length.
-/

namespace Sbe.Source

open Sbe.Text
open Sbe.Outcome (Yields)

/-- The functions of a decoder that read a field from the wire, given whether the schema fixes its
value and the first token of its type. -/
def wireReads (constant : Bool) (type : Token) : Nat :=
  match type.signal with
  | .encoding =>
    if constant then 0 else if 1 < type.arrayLength ∧ type.encoding.primitive = some .char then 3
      else 1
  | .beginEnum => if constant then 0 else 1
  | .beginSet | .beginComposite => 1
  | _ => 0

/-- A property whose names have no line breaks. -/
structure Property.Plain (property : Property) : Prop where
  name : Text.Plain property.name
  typeName : Text.Plain property.first.typeName

theorem primitive_yields (token : Token) :
    Yields token.primitive fun primitive => token.encoding.primitive = some primitive :=
  .ofOption _ fun _ found => found

/-! ### Constants and attributes -/

theorem metaAttributes_free {accessor : String} (plain : Plain accessor) (token : Token) :
    Free (metaAttributes accessor token) := by
  simp (disch := constructor; rfl; decide) [metaAttributes, plain]

theorem propertyConstants_yields {settings : Settings} (plain : settings.Plain)
    {property : Property} (named : property.Plain) :
    Yields (propertyConstants settings property) Free := by
  have upper := Name.plain_upperSnakeCase named.name
  unfold propertyConstants
  dsimp only
  split
  · refine .pure ?_
    simp (disch := constructor; rfl; decide) [upper]
  · refine (plain.propertyName named.name).bind fun accessor plainAccessor => .pure ?_
    simp (disch := constructor; rfl; decide) [upper, metaAttributes_free plainAccessor]

/-! ### Arrays -/

theorem indexTest_free (name : String) {upper : String} (plain : Plain upper) :
    Free (indexTest name upper) := by
  simp (disch := constructor; rfl; decide) [indexTest, plain]

section

variable {accessor upper base : String} (plainAccessor : Plain accessor) (plainUpper : Plain upper)
  (plainBase : Plain base)

include plainAccessor plainUpper plainBase

theorem charArrayReads_guards (property : Property) (guarded : Bool) :
    Guards 1 (charArrayReads property accessor upper base guarded)
      (versionTests guarded (1 + 1) property.since.toNat) := by
  refine .join (.function ?_ (.followed (.preceded (guards_guardIf guarded _ ?_) ?_) ?_))
    (.function ?_ (.followed (guards_guardIf guarded _ ?_) ?_))
  all_goals simp (disch := constructor; rfl; decide) [plainAccessor, plainUpper, plainBase]

theorem charArrayWrites_free : Free (charArrayWrites accessor upper base) := by
  simp (disch := constructor; rfl; decide) [charArrayWrites, plainAccessor, plainUpper, plainBase]

end

section

variable {property : Property} (named : property.Plain) {accessor : String}
  (plainAccessor : Plain accessor)

include named plainAccessor

/-- An array has a guard in the function that reads an element; a text also has one in each of the
two that read it as a whole. -/
theorem arrayAccessors_yields (primitive : Primitive) (side : Side) (scope : Scope) :
    Yields (arrayAccessors property primitive accessor side (property.isGuarded side scope))
      fun code =>
      Guards 1 code (versionTests (property.isGuarded side scope)
            (if primitive = .char then 3 else 1) property.since.toNat) := by
  unfold arrayAccessors
  extract_lets upper order base element elements
  have plainUpper : Plain upper := Name.plain_upperSnakeCase named.name
  have plainBase : Plain base := (plain_offsetFrom _ _).mpr (plain_literal rfl)
  have plainElement : Plain element := by
    unfold element
    split
    · simp (disch := constructor; rfl; decide) [plainBase]
    · simp (disch := constructor; rfl; decide) [plainBase]
  have each :
      Guards 1 elements (versionTests (property.isGuarded side scope) 1 property.since.toNat) := by
    refine .followed (.line (Mild.inert ?_) (.function ?_ (.followed (.preceded
      (guards_guardIf _ _ ?_) (indexTest_free _ plainUpper)) ?_))) ?_
    · simp (disch := constructor; rfl; decide) [plainUpper]
    · simp (disch := constructor; rfl; decide) [plainAccessor]
    · simp (disch := constructor; rfl; decide) [plainUpper]
    · simp (disch := constructor; rfl; decide) [plainElement]
    · cases side with
      | decoder => exact free_nil
      | encoder =>
        simp (disch := constructor; rfl; decide)
          [plainAccessor, plainElement, indexTest_free _ plainUpper]
  split
  · exact .pure each
  · next isChar =>
    rw [if_pos (not_not.mp isChar)]
    refine (Yields.any _).bind fun set _ => .pure ?_
    have constants :
        Free (Code.spaced [Code.constant (upper ++ "_CHARACTER_ENCODING") "CharacterEncoding"
              (charsetPath set)]) := by
      simp (disch := constructor; rfl; decide) [plainUpper]
    cases side with
    | decoder =>
      exact (each.followed constants).join
        (charArrayReads_guards plainAccessor plainUpper plainBase _ _)
    | encoder =>
      exact (each.followed constants).followed
        (charArrayWrites_free plainAccessor plainUpper plainBase)

/-! ### Constants -/

theorem constantText_yields (value : String) (side : Side) :
    Yields (constantText property value accessor side) Free := by
  unfold constantText
  extract_lets upper
  have plainUpper : Plain upper := Name.plain_upperSnakeCase named.name
  refine (Yields.any _).bind fun set _ => ?_
  split
  · exact .refuse _
  · cases side with
    | encoder =>
      refine .pure ?_
      simp (disch := constructor; rfl; decide) [plainUpper]
    | decoder =>
      refine .pure ?_
      simp (disch := constructor; rfl; decide) [plainUpper, plainAccessor]

end

section

variable {settings : Settings} (plain : settings.Plain) {property : Property}
  (named : property.Plain)

include plain named

theorem constantAccessors_yields (primitive : Primitive) (side : Side) :
    Yields (constantAccessors settings property primitive side) Free := by
  have upper := Name.plain_upperSnakeCase named.name
  refine (plain.propertyName named.name).bind fun accessor plainAccessor => ?_
  refine (Yields.any _).bind fun value _ => ?_
  dsimp only
  split
  · exact constantText_yields named plainAccessor _ side
  · refine (literal_yields _ _ _).bind fun shown plainShown => .pure ?_
    cases side with
    | decoder => simp (disch := constructor; rfl; decide) [upper, plainAccessor, plainShown]
    | encoder => simp (disch := constructor; rfl; decide) [upper, plainShown]

/-! ### Single values -/

theorem primitiveAccessors_yields (opens : property.first.signal = .encoding) (side : Side)
    (scope : Scope) :
    Yields (primitiveAccessors settings property side scope) fun code =>
      Guards 1 code (versionTests (property.isGuarded side scope)
          (wireReads property.isConstant property.first) property.since.toNat) := by
  have plainUpper := Name.plain_upperSnakeCase named.name
  have plainBase : Plain (offsetFrom "self.offset" property.first.offset) :=
    (plain_offsetFrom _ _).mpr (plain_literal rfl)
  unfold primitiveAccessors
  dsimp only
  refine (primitive_yields _).bind fun primitive found => ?_
  rw [wireReads, opens]
  dsimp only
  split
  · refine (constantAccessors_yields plain named primitive side).mono fun code free => ?_
    rw [versionTests, ite_self]
    exact .of_free free
  refine (plain.propertyName named.name).bind fun accessor plainAccessor => ?_
  refine (literal_yields _ _ _).bind fun null plainNull => ?_
  refine (literal_yields _ _ _).bind fun least plainLeast => ?_
  refine (literal_yields _ _ _).bind fun greatest plainGreatest => ?_
  have bounds : Free
      [Code.constant (Name.upperSnakeCase property.name ++ "_NULL_VALUE") primitive.sourceType null,
        Code.constant (Name.upperSnakeCase property.name ++ "_MIN_VALUE") primitive.sourceType
          least,
        Code.constant (Name.upperSnakeCase property.name ++ "_MAX_VALUE") primitive.sourceType
          greatest] := by
    simp (disch := constructor; rfl; decide) [plainUpper, plainNull, plainLeast, plainGreatest]
  by_cases several : 1 < property.first.arrayLength
  · rw [if_pos several]
    simp only [several, found, Option.some.injEq, true_and]
    exact (arrayAccessors_yields named plainAccessor primitive side scope).bind fun code guards =>
      .pure (guards.preceded bounds)
  · rw [if_neg several, if_neg (fun both => several both.1)]
    refine .pure
      (.followed (.preceded (.function ?_ (.followed (guards_guardIf _ _ ?_) ?_)) bounds) ?_)
    · simp (disch := constructor; rfl; decide) [plainAccessor]
    · simp (disch := constructor; rfl; decide) [plainUpper]
    · simp (disch := constructor; rfl; decide) [plainBase]
    · cases side with
      | decoder => exact free_nil
      | encoder => simp (disch := constructor; rfl; decide) [plainAccessor, plainBase]

/-! ### Enums, sets and composites -/

omit named in
theorem constantVariant_yields : Yields (constantVariant settings property) fun variant =>
    Plain variant ∨ '_' ∉ variant.toList := by
  refine (Yields.any _).bind fun value _ => ?_
  refine (Yields.any _).bind fun variant _ => ?_
  refine (Settings.escape_yields settings (Name.pascalCase variant) variant).mono ?_
  rintro escaped (⟨_, rfl⟩ | ⟨reserved, token, given, rfl⟩)
  · exact .inr (Name.underscore_not_mem_pascalCase variant)
  · exact .inl ((plain_append _ _).mpr ⟨Name.plain_of_isReserved reserved, plain.token token given⟩)

theorem enumAccessors_yields (opens : property.first.signal = .beginEnum) (side : Side)
    (scope : Scope) :
    Yields (enumAccessors settings property side scope) fun code =>
      Guards 1 code (versionTests (property.isGuarded side scope)
          (wireReads property.isConstant property.first) property.since.toNat) := by
  have plainBase : Plain (offsetFrom "self.offset" property.first.offset) :=
    (plain_offsetFrom _ _).mpr (plain_literal rfl)
  unfold enumAccessors
  dsimp only
  rw [wireReads, opens]
  dsimp only
  refine (plain.propertyName named.name).bind fun accessor plainAccessor => ?_
  refine (plain.typeName named.typeName).bind fun enumName plainEnum => ?_
  split
  · rw [versionTests, ite_self]
    cases side with
    | encoder => exact .pure .nil
    | decoder =>
      refine (constantVariant_yields plain).bind fun variant settled => .pure ?_
      refine .function ?_ (.line (inert_variant plainEnum settled) .nil)
      simp (disch := constructor; rfl; decide) [plainAccessor, plainEnum]
  · refine (Yields.any _).bind fun primitive _ => .pure ?_
    refine .followed (.function ?_ (.followed (guards_guardIf _ _ ?_) ?_)) ?_
    · simp (disch := constructor; rfl; decide) [plainAccessor]
    · simp (disch := constructor; rfl; decide) [plainEnum]
    · simp (disch := constructor; rfl; decide) [plainBase]
    · cases side with
      | encoder => simp (disch := constructor; rfl; decide) [plainAccessor, plainEnum, plainBase]
      | decoder =>
        cases settings.decodeUnknownEnumValues with
        | true => simp (disch := constructor; rfl; decide) [plainAccessor, plainEnum]
        | false => simp (disch := constructor; rfl; decide) [plainAccessor, plainEnum]

theorem viewAccessors_yields (side : Side) (scope : Scope) :
    Yields (viewAccessors settings property side scope) fun code => Guards 1 code
      (versionTests (property.isGuarded side scope) 1 property.since.toNat) := by
  have plainBase : Plain (offsetFrom "self.offset" property.first.offset) :=
    (plain_offsetFrom _ _).mpr (plain_literal rfl)
  have plainCodec : Plain (codecName property.first.typeName side) :=
    (plain_append _ _).mpr ⟨Name.plain_pascalCase named.typeName, plain_suffix side⟩
  refine (plain.propertyName named.name).bind fun accessor plainAccessor => .pure ?_
  cases side with
  | encoder =>
    refine .of_free ?_
    simp (disch := constructor; rfl; decide) [plainAccessor, plainCodec, plainBase]
  | decoder =>
    dsimp only
    split
    · next guarded =>
      rw [guarded]
      refine .function ?_ (.followed (guards_guard _ (plain_literal rfl)) ?_)
      · simp (disch := constructor; rfl; decide) [plainAccessor, plainCodec]
      · simp (disch := constructor; rfl; decide) [plainCodec, plainBase]
    · next unguarded =>
      rw [Bool.not_eq_true _ |>.mp unguarded]
      refine .of_free ?_
      simp (disch := constructor; rfl; decide) [plainAccessor, plainCodec, plainBase]

/-- **The guards of a property** are those of the functions that read it from the wire. -/
theorem accessors_yields (side : Side) (scope : Scope) :
    Yields (accessors settings side scope property) fun code => Guards 1 code
      (versionTests (property.isGuarded side scope) (wireReads property.isConstant property.first)
        property.since.toNat) := by
  refine (propertyConstants_yields plain named).bind fun constants free => ?_
  have behind {code : Code} {versions : List Nat} (guards : Guards 1 code versions) :
      Yields (pure (constants ++ code) : Result Code) fun code => Guards 1 code versions :=
    .pure (guards.preceded free)
  dsimp only
  split
  · next opens =>
    exact (primitiveAccessors_yields plain named opens side scope).bind fun _ => behind
  · next opens =>
    exact (enumAccessors_yields plain named opens side scope).bind fun _ => behind
  · next opens =>
    rw [wireReads, opens]
    exact (viewAccessors_yields plain named side scope).bind fun _ => behind
  · next opens =>
    rw [wireReads, opens]
    exact (viewAccessors_yields plain named side scope).bind fun _ => behind
  · exact .refuse _

end

/-! ### Fields of variable length -/

theorem varDataReads_guards (layout : VarDataLayout) (length : Primitive)
    {accessor upper : String} (plainAccessor : Plain accessor) (plainUpper : Plain upper)
    (isText : Bool) :
    Guards 1 (varDataReads layout length accessor upper isText)
      (versionTests (decide (0 < layout.varData.version)) (1 + 1 + 1)
        layout.varData.version.toNat) := by
  unfold varDataReads
  extract_lets since guarded header consume
  have plainHeader : Plain header := by
    simp (disch := constructor; rfl; decide) [header, plainUpper]
  have free : Free consume := by
    simp (disch := constructor; rfl; decide) [consume, plainAccessor, plainHeader]
  have tested {fallback : String} {rest : Code} (plain : Plain fallback) (freeRest : Free rest) :
      Guards 0 (guardIf guarded since fallback ++ rest) (versionTests guarded 1 since.toNat) :=
    (guards_guardIf guarded since plain).followed freeRest
  refine .followed (.followed (.join (.join (.function ?_ (tested ?_ ?_))
    (.documented ?_ ?_ (.followed (tested ?_ free) ?_)))
    (.documented ?_ ?_ (.followed (tested ?_ free) ?_))) ?_) ?_
  rotate_right
  · cases isText with
    | true => simp (disch := constructor; rfl; decide) [plainAccessor, plainUpper]
    | false => exact free_nil
  all_goals simp (disch := constructor; rfl; decide) [plainAccessor, plainHeader]

theorem varDataWrites_free (layout : VarDataLayout) (length : Primitive) {accessor upper : String}
    (plainAccessor : Plain accessor) (plainUpper : Plain upper) (isText : Bool) :
    Free (varDataWrites layout length accessor upper isText) := by
  cases isText with
  | true => simp (disch := constructor; rfl; decide) [varDataWrites, plainAccessor, plainUpper]
  | false => simp (disch := constructor; rfl; decide) [varDataWrites, plainAccessor, plainUpper]

/-- **The guards of a field of variable length** are those of the functions that tell its length,
skip it and lend its bytes. -/
theorem varDataAccessors_yields {settings : Settings} (plain : settings.Plain)
    {layout : VarDataLayout} (named : Plain layout.varData.name) (side : Side) :
    Yields (varDataAccessors settings side layout) fun code =>
      Guards 1 code (versionTests (side == .decoder && decide (0 < layout.varData.version)) 3
          layout.varData.version.toNat) := by
  refine (plain.propertyName named).bind fun accessor plainAccessor => ?_
  have plainUpper := Name.plain_upperSnakeCase named
  refine (Yields.any _).bind fun length _ => ?_
  dsimp only
  split
  · exact .refuse _
  have attributes := metaAttributes_free plainAccessor layout.data
  have charsets (set : Option Charset) : Free (set.map fun set => Code.constant
      (Name.upperSnakeCase layout.varData.name ++ "_CHARACTER_ENCODING") "CharacterEncoding"
      (charsetPath set)).toList := by
    cases set with
    | none => exact free_nil
    | some charset => simp (disch := constructor; rfl; decide) [plainUpper]
  split
  all_goals
    refine (Yields.any _).bind fun set _ => .pure ?_
    cases side with
    | decoder =>
      refine .preceded (varDataReads_guards layout length plainAccessor plainUpper set.isSome) ?_
      simp (disch := constructor; rfl; decide) [plainUpper, attributes, charsets]
    | encoder =>
      have writes := varDataWrites_free layout length plainAccessor plainUpper set.isSome
      refine .of_free ((free_append _ _).mpr ⟨?_, writes⟩)
      simp (disch := constructor; rfl; decide) [plainUpper, attributes, charsets]

end Sbe.Source
