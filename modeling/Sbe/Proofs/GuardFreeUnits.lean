import Sbe.Proofs.ConstantEnums
import Sbe.Proofs.GuardedAccessors
import Sbe.Source.BitSet
import Sbe.Source.Composite

/-!
**Units of types have no guards.**

Enums, sets and composites are the same in all versions of a schema, so that none of their units
tests the version. The functions that show codecs as text have no guards either, in whatever unit
they stand.

* `propertyEntry_yields`, `joinEntries_free`: functions that show codecs;
* `enumUnit_yields`, `setUnit_yields`, `compositeUnit_yields`: the units.
-/

namespace Sbe.Source

open Sbe.Text
open Sbe.Outcome (Yields)

/-! ### Functions that show codecs -/

@[simp] theorem mild_entryName (name : String) : Mild (entryName name) := by
  show Mild ("out.write_str(" ++ quote (name ++ "=") ++ ")?;")
  simp (disch := constructor; rfl; decide)

@[simp] theorem mild_writeValue (value : String) : Mild (writeValue value) ↔ Plain value := by
  show Mild ("write!(out, \"\x7b\x7d\", " ++ value ++ ")?;") ↔ _
  simp (disch := constructor; rfl; decide)

theorem entryValue_free (settings : Settings) {property : Property} (named : property.Plain)
    (scope : Scope) {accessor : String} (plain : Plain accessor) :
    Free (entryValue settings property scope accessor) := by
  have upper := Name.plain_upperSnakeCase named.name
  unfold entryValue
  dsimp only
  split
  · split
    · simp (disch := constructor; rfl; decide) [plain]
    split
    · simp (disch := constructor; rfl; decide) [plain]
    split
    · simp (disch := constructor; rfl; decide) [plain]
    · simp (disch := constructor; rfl; decide) [plain, upper]
  · split
    · simp (disch := constructor; rfl; decide) [plain]
    · simp (disch := constructor; rfl; decide) [plain]
  · split
    · simp (disch := constructor; rfl; decide) [plain]
    · simp (disch := constructor; rfl; decide) [plain]

theorem propertyEntry_yields {settings : Settings} (plain : settings.Plain) {property : Property}
    (named : property.Plain) (scope : Scope) :
    Yields (propertyEntry settings scope property) fun entry => ∀ code ∈ entry, Free code := by
  unfold propertyEntry
  split
  · refine (plain.propertyName named.name).bind fun accessor plainAccessor => .pure ?_
    rintro code ⟨⟩
    exact (free_cons _ _).mpr ⟨mild_entryName _, entryValue_free settings named scope plainAccessor⟩
  · exact .pure (by simp)

theorem joinEntries_free {entries : List Code} (each : ∀ entry ∈ entries, Free entry) :
    Free (joinEntries entries) := by
  have bar : Free ["out.write_char('|')?;"] := by simp (disch := constructor; rfl; decide)
  unfold joinEntries
  fun_induction List.intersperse ["out.write_char('|')?;"] entries with
  | case1 => exact free_nil
  | case2 entry => simpa using each
  | case3 entry rest other ih =>
    obtain ⟨first, later⟩ := List.forall_mem_cons.mp each
    rw [List.flatten_cons, List.flatten_cons, free_append, free_append]
    exact ⟨first, bar, ih later⟩

/-- The entries of the properties that are shown. -/
theorem propertyEntries_yields {settings : Settings} (plain : settings.Plain)
    {properties : List Property} (named : ∀ property ∈ properties, property.Plain) (scope : Scope) :
    Yields (properties.mapM (propertyEntry settings scope)) fun entries =>
      ∀ entry ∈ entries.filterMap id, Free entry := by
  refine (Yields.forall_mapM
    fun property member => propertyEntry_yields plain (named property member) scope).mono
    fun entries each entry member => ?_
  obtain ⟨shown, inside, same⟩ := List.mem_filterMap.mp member
  exact each shown inside entry same

theorem compositeRender_yields {settings : Settings} (plain : settings.Plain)
    {properties : List Property} (named : ∀ property ∈ properties, property.Plain) :
    Yields (compositeRender settings properties) Free := by
  refine (propertyEntries_yields plain named .composite).bind fun entries each => .pure ?_
  have joined := joinEntries_free each
  generalize entries.filterMap id = shown at joined ⊢
  simp (disch := constructor; rfl; decide) [joined]

/-! ### Views -/

theorem prelude_free {settings : Settings} (plain : settings.Plain) : Free (prelude settings) := by
  simp (disch := constructor; rfl; decide)
    [prelude, plain.supportPath, plain.readBuffer, plain.writeBuffer]

theorem schemaConstants_yields (schema : Schema) : Yields (schemaConstants schema) Free := by
  refine (Yields.any _).bind fun idType _ => (Yields.any _).bind fun versionType _ => ?_
  refine (literal_yields _ _ _).bind fun id plainId => ?_
  refine (literal_yields _ _ _).bind fun version plainVersion => .pure ?_
  simp (disch := constructor; rfl; decide) [plainId, plainVersion]

@[simp] theorem display_free (typeName : String) (body : Code) :
    Free (display typeName body) ↔ Plain typeName ∧ Free body := by
  simp (disch := constructor; rfl; decide) [display]

@[simp] theorem bufferFunction_free (side : Side) : Free side.bufferFunction := by
  cases side with
  | decoder => simp (disch := constructor; rfl; decide) [Side.bufferFunction]
  | encoder => simp (disch := constructor; rfl; decide) [Side.bufferFunction]

@[simp] theorem mild_derives (side : Side) : Mild side.derives := by
  cases side with
  | decoder => exact mild_of_spelled ⟨_, rfl, rfl⟩
  | encoder => exact mild_of_spelled ⟨_, rfl, rfl⟩

theorem plain_codecName {name : String} (plain : Plain name) (side : Side) :
    Plain (codecName name side) :=
  (plain_append _ _).mpr ⟨Name.plain_pascalCase plain, plain_suffix side⟩

theorem viewDisplay_free {name : String} (plain : Plain name) (side : Side) :
    Free (viewDisplay name side) := by
  cases side with
  | decoder => simp (disch := constructor; rfl; decide) [viewDisplay, plain_codecName plain]
  | encoder => simp (disch := constructor; rfl; decide) [viewDisplay, plain_codecName plain]

/-- A view has the guards of its members. -/
theorem view_guards {settings : Settings} (plain : settings.Plain) {schemaLines : Code}
    (free : Free schemaLines) {first : Token} (named : Plain first.typeName) (side : Side)
    {members : Code} {versions : List Nat} (guards : Guards 1 members versions) :
    Guards 2 (view settings schemaLines first side members) versions := by
  have codec := plain_codecName named side
  refine .followed (.preceded (.spaced (.block (Mild.inert ?_) (.preceded guards ?_))) ?_)
    (viewDisplay_free named side)
  · simp (disch := constructor; rfl; decide) [codec]
  · simp (disch := constructor; rfl; decide) [viewMembers, free]
  · simp (disch := constructor; rfl; decide) [prelude_free plain, viewStructure, codec]

/-! ### Enums -/

/-- A value of an enum whose variant and literal have no line breaks. -/
def EnumValue.Plain (value : EnumValue) : Prop :=
  Text.Plain value.variant ∧ Text.Plain value.literal

theorem enumValue_yields {settings : Settings} (plain : settings.Plain) (primitive : Primitive)
    {token : Token} (named : Plain token.name) :
    Yields (enumValue settings primitive token) EnumValue.Plain := by
  refine (Yields.any _).bind fun constant _ => ?_
  refine (plain.typeName named).bind fun variant plainVariant => ?_
  exact (literal_yields _ _ _).bind fun shown plainShown => .pure ⟨plainVariant, plainShown⟩

section

variable {name : String} (plain : Plain name) {sourceType : String} (plainType : Plain sourceType)
  {values : List EnumValue} (each : ∀ value ∈ values, value.Plain)

include plain each

include plainType in
theorem enumToValue_free (unknown : Bool) : Free (enumToValue unknown name sourceType values) := by
  have arms : Free (values.map fun value =>
      name ++ "::" ++ value.variant ++ " => " ++ value.literal ++ ",") := by
    refine (free_map _ _).mpr fun value member => ?_
    obtain ⟨variant, shown⟩ := each value member
    simp (disch := constructor; rfl; decide) [plain, variant, shown]
  cases unknown with
  | true => simp (disch := constructor; rfl; decide) [enumToValue, plain, plainType, arms]
  | false => simp (disch := constructor; rfl; decide) [enumToValue, plain, plainType, arms]

include plainType in
theorem enumOfValue_free (unknown : Bool) : Free (enumOfValue unknown name sourceType values) := by
  cases unknown with
  | true =>
    have arms : Free (values.map fun value =>
        value.literal ++ " => " ++ name ++ "::" ++ value.variant ++ ",") := by
      refine (free_map _ _).mpr fun value member => ?_
      obtain ⟨variant, shown⟩ := each value member
      simp (disch := constructor; rfl; decide) [plain, variant, shown]
    simp (disch := constructor; rfl; decide) [enumOfValue, plain, plainType, arms]
  | false =>
    have arms : Free (values.map fun value =>
        value.literal ++ " => Ok(" ++ name ++ "::" ++ value.variant ++ "),") := by
      refine (free_map _ _).mpr fun value member => ?_
      obtain ⟨variant, shown⟩ := each value member
      simp (disch := constructor; rfl; decide) [plain, variant, shown]
    simp (disch := constructor; rfl; decide) [enumOfValue, plain, plainType, arms]

theorem enumToText_free (unknown : Bool) : Free (enumToText unknown name values) := by
  have arms : Free (values.map fun value =>
      name ++ "::" ++ value.variant ++ " => " ++ quote value.schemaName ++ ",") := by
    refine (free_map _ _).mpr fun value member => ?_
    simp (disch := constructor; rfl; decide) [plain, (each value member).1]
  cases unknown with
  | true => simp (disch := constructor; rfl; decide) [enumToText, plain, arms]
  | false => simp (disch := constructor; rfl; decide) [enumToText, plain, arms]

end

theorem mem_of_mem_inner {tokens : List Token} {token : Token} (member : token ∈ inner tokens) :
    token ∈ tokens := List.mem_of_mem_tail ((List.dropLast_sublist _).subset member)

/-- An enum has no guards. -/
theorem enumUnit_yields {settings : Settings} (plain : settings.Plain) {first : Token}
    (opening : Plain first.typeName) {tokens : List Token}
    (named : ∀ token ∈ tokens, Plain token.name) :
    Yields (enumUnit settings first tokens) Free := by
  refine (plain.typeName opening).bind fun name plainName => ?_
  refine (Yields.any _).bind fun primitive _ => ?_
  dsimp only
  split
  · exact .refuse _
  refine (literal_yields _ _ _).bind fun null plainNull => ?_
  refine (Yields.forall_mapM fun token member =>
    enumValue_yields plain primitive
      (named token (mem_of_mem_inner member))).bind fun values each => .pure ?_
  have variants : Free (values.map fun value => value.variant ++ ",") := by
    refine (free_map _ _).mpr fun value member => ?_
    simp (disch := constructor; rfl; decide) [(each value member).1]
  have plainType := plain_sourceType primitive
  have toValue := enumToValue_free plainName plainType each settings.decodeUnknownEnumValues
  have ofValue := enumOfValue_free plainName plainType each settings.decodeUnknownEnumValues
  have toText := enumToText_free plainName each settings.decodeUnknownEnumValues
  have unknown : Free (if settings.decodeUnknownEnumValues then ["SbeUnknown,"] else []) := by
    split
    · simp (disch := constructor; rfl; decide)
    · exact free_nil
  simp (disch := constructor; rfl; decide)
    [prelude_free plain, plainName, plainNull, variants, toValue, ofValue, toText, unknown]

/-! ### Sets -/

/-- A choice whose accessor has no line breaks and is tested in a line that is no guard. -/
structure Choice.Plain (choice : Choice) : Prop where
  accessor : Text.Plain choice.accessor
  inert : Inert ("if self." ++ choice.accessor ++ "()" ++ " \x7b")

/-- No reserved word can stand where a guard names the cursor. -/
theorem reserved_not_prefix : ∀ word ∈ Name.reservedWords,
    ¬ "if self.".toList ++ word.toList <+: guardOpening.toList ∧
      ¬ guardOpening.toList <+: "if self.".toList ++ word.toList := by
  decide +kernel

/-- The line that tests a choice is no guard: the accessor compares nothing, or starts with a
reserved word. -/
theorem choiceName_yields {settings : Settings} (plain : settings.Plain) {name : String}
    (identifier : Name.isIdentifier name = true) :
    Yields (settings.propertyName name) fun accessor =>
      Plain accessor ∧ Inert ("if self." ++ accessor ++ "()" ++ " \x7b") := by
  have formatted := Name.plain_snakeCase (Name.plain_of_isIdentifier identifier)
  refine (Settings.escape_yields settings (Name.snakeCase name) name).mono ?_
  rintro accessor (⟨_, rfl⟩ | ⟨reserved, token, given, rfl⟩)
  · have calm : '<' ∉ (Name.snakeCase name).toList := by
      intro compared
      have member := Name.mem_snakeCase (by decide) (by decide) compared
      exact absurd (Name.continuesIdentifier_of_mem identifier member) (by decide)
    refine ⟨formatted, Mild.inert ⟨?_, .inr ?_⟩⟩
    · simp (disch := constructor; rfl; decide) [formatted]
    · simp [Calm, calm]
  · have whole := plain.token token given
    refine ⟨(plain_append _ _).mpr ⟨formatted, whole⟩, fun piece member isGuard => ?_⟩
    have line : Plain ("if self." ++ (Name.snakeCase name ++ token) ++ "()" ++ " \x7b") := by
      simp (disch := constructor; rfl; decide) [formatted, whole]
    have spelled : ("if self." ++ (Name.snakeCase name ++ token) ++ "()" ++ " \x7b").toList =
        ("if self.".toList ++ (Name.snakeCase name).toList) ++
          (token.toList ++ "()".toList ++ " \x7b".toList) := by
      simp only [String.toList_append, List.append_assoc]
    rw [List.splitOn_eq_singleton line, List.mem_singleton, spelled] at member
    subst member
    obtain ⟨shorter, longer⟩ := reserved_not_prefix _ (List.contains_iff_mem.mp reserved)
    have opening := isGuard.opening (by rw [List.append_assoc, List.head?_append]; rfl)
    rcases List.prefix_or_prefix_of_prefix (List.prefix_append _ _) opening with first | second
    · exact shorter first
    · exact longer second

theorem choice_yields {settings : Settings} (plain : settings.Plain) (primitive : Primitive)
    {token : Token} (identifier : Name.isIdentifier token.name = true) :
    Yields (choice settings primitive token) Choice.Plain := by
  refine (Yields.any _).bind fun bit _ => ?_
  dsimp only
  split
  · exact .refuse _
  · exact (choiceName_yields plain identifier).bind fun accessor each => .pure ⟨each.1, each.2⟩

section

variable {choices : List Choice} (each : ∀ choice ∈ choices, choice.Plain)

theorem plain_mask (choice : Choice) {sourceType : String} (plain : Plain sourceType) :
    Plain (choice.mask sourceType) := by
  show Plain ("(1" ++ sourceType ++ " << " ++ toString choice.bit ++ ")")
  simp (disch := constructor; rfl; decide) [plain]

theorem choiceTest_free {choice : Choice} (plain : choice.Plain) {sourceType : String}
    (plainType : Plain sourceType) : Free (choiceTest sourceType choice) := by
  simp (disch := constructor; rfl; decide) [choiceTest, plain.accessor, plainType,
    plain_mask choice plainType]

theorem choiceChange_free (primitive : Primitive) (order : ByteOrder) {choice : Choice}
    (plain : choice.Plain) : Free (choiceChange primitive order choice) := by
  simp (disch := constructor; rfl; decide) [choiceChange, plain.accessor,
    plain_mask choice (plain_sourceType primitive)]

include each

theorem setRender_guards : Guards 1 (setRender choices) [] := by
  refine .function (plain_literal rfl)
    (.followed (.preceded (.flatMap fun choice member => ?_) ?_) ?_)
  · refine .line (each choice member).inert (.of_free ?_)
    simp (disch := constructor; rfl; decide)
  · simp (disch := constructor; rfl; decide)
  · simp (disch := constructor; rfl; decide)

theorem setMembers_guards (primitive : Primitive) (order : ByteOrder) (side : Side) :
    Guards 1 (setMembers primitive order choices side) [] := by
  refine .preceded ?_ (by simp (disch := constructor; rfl; decide))
  cases side with
  | decoder =>
    refine .preceded (setRender_guards each) ((free_flatMap _ _).mpr fun choice member => ?_)
    exact choiceTest_free (each choice member) (plain_sourceType primitive)
  | encoder =>
    refine .preceded (.of_free ((free_flatMap _ _).mpr fun choice member => ?_)) ?_
    · exact choiceChange_free primitive order (each choice member)
    · simp (disch := constructor; rfl; decide)

end

/-- A set has no guards. -/
theorem setUnit_yields {settings : Settings} (plain : settings.Plain) (schema : Schema)
    {first : Token} (opening : Plain first.typeName) {tokens : List Token}
    (named : ∀ token ∈ tokens, Name.isIdentifier token.name = true) (side : Side) :
    Yields (setUnit settings schema first tokens side) fun code => Guards 2 code [] := by
  refine (Yields.any _).bind fun primitive _ => ?_
  dsimp only
  split
  · exact .refuse _
  refine (Yields.forall_mapM fun token member =>
    choice_yields plain primitive
      (named token (mem_of_mem_inner member))).bind fun choices each => ?_
  refine (schemaConstants_yields schema).bind fun schemaLines free => .pure ?_
  exact view_guards plain free opening side (setMembers_guards each _ _ side)

/-! ### Composites -/

theorem compositeInterfaces_free {settings : Settings} (plain : settings.Plain)
    {typeName : String} (plainType : Plain typeName) (side : Side) :
    Free (compositeInterfaces settings typeName side) := by
  simp (disch := constructor; rfl; decide) [compositeInterfaces, plain.supportPath, plainType]

theorem Property.plain_of_isNamed {property : Property} (described : property.described.IsNamed)
    (first : property.first.IsNamed) : property.Plain :=
  ⟨Name.plain_of_isIdentifier described.1, Name.plain_of_isIdentifier first.typeName⟩

theorem members_yields {index : Nat} {tokens : List Token}
    (named : ∀ token ∈ tokens, token.IsNamed) :
    Yields (members index tokens) fun properties => ∀ property ∈ properties, property.Plain := by
  intro properties found property member
  obtain ⟨none, inside⟩ := subset_of_mem_members found property member
  have first : property.first.IsNamed := named _ (inside List.mem_cons_self)
  refine Property.plain_of_isNamed ?_ first
  rw [Property.described, none]
  exact first

/-- A composite has no guards: its members are not versioned. -/
theorem compositeUnit_yields {settings : Settings} (plain : settings.Plain) (schema : Schema)
    {first : Token} (opening : Plain first.typeName) {tokens : List Token}
    (named : ∀ token ∈ tokens, token.IsNamed) (side : Side) :
    Yields (compositeUnit settings schema first tokens side) fun code => Guards 2 code [] := by
  refine (members_yields fun token member => named token (mem_of_mem_inner member)).bind
    fun properties each => ?_
  refine (schemaConstants_yields schema).bind fun schemaLines free => ?_
  have unguarded (property : Property) (member : property ∈ properties) :
      Yields (accessors settings side .composite property) fun code => Guards 1 code [] := by
    have found := accessors_yields plain (each property member) side .composite
    have guarded : property.isGuarded side .composite = false := by
      rw [Property.isGuarded, show (Scope.composite == Scope.body) = false from rfl, Bool.and_false,
        Bool.false_and]
    rwa [guarded] at found
  refine (Yields.forall_mapM unguarded).bind fun functions guards => ?_
  have guarded (render : Code) (freeRender : Free render) :
      Guards 2 (view settings schemaLines first side (functions.flatten ++ render) ++
        if settings.generateInterfaces then
          compositeInterfaces settings (codecName first.typeName side) side
        else []) [] := by
    refine .followed (view_guards plain free opening side (.followed ?_ freeRender)) ?_
    · rw [← List.flatMap_id]
      exact .flatMap guards
    · split
      · exact compositeInterfaces_free plain (plain_codecName opening side) side
      · exact free_nil
  cases side with
  | decoder =>
    exact (compositeRender_yields plain each).bind fun render shown => .pure (guarded render shown)
  | encoder => exact .pure (guarded [] free_nil)

end Sbe.Source
