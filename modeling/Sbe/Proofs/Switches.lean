import Sbe.Proofs.Rewording

/-!
**Switches of a generation run.**

A run has two switches: one adds the shared interfaces to codecs of messages and composites, the
other lets enums be read from unknown values. Neither decides whether a unit can be generated. The
interfaces come after all other lines of a unit, and unknown values are the business of enums and
decoders alone.

* `Settings.switched`: settings under given switches;
* `accessors_alike`, `bodyMembers_alike`, `groupTypes_alike`: code of fields and groups, at every
  depth;
* `compositeUnit_alike`, `messageUnit_alike`: units, up to the interfaces at their end;
* `generate_switches_conservative`: whole runs.
-/

namespace Sbe

/-- Settings with both switches chosen. -/
def Settings.switched (settings : Settings) (unknown interfaces : Bool) : Settings :=
  { settings with decodeUnknownEnumValues := unknown, generateInterfaces := interfaces }

open Outcome (Alike)

-- Names are compared as they stand, without going through the table of reserved words.
seal Name.isReserved

namespace Source

/-! ### Fields

Names are spelled alike under all switches, so most code is the same by computation. What reads an
enum differs, but only on the side that reads. -/

section Switches

variable (settings : Settings) (unknown other interfaces added : Bool)

/-- Code of one side that ends alike under two choices of the switches, and is equal where it does
not read or unknown values are treated alike. -/
def AlikeOn (side : Side) (code twin : Result Code) : Prop :=
  Alike (fun lines others => side = .encoder ∨ unknown = other → lines = others) code twin

theorem enumAccessors_alike (property : Property) (side : Side) (scope : Scope) :
    AlikeOn unknown other side
      (enumAccessors (settings.switched unknown interfaces) property side scope)
      (enumAccessors (settings.switched other added) property side scope) := by
  refine .bind_same (settings.propertyName property.name) fun accessor => ?_
  refine .bind_same (settings.typeName property.first.typeName) fun enumName => ?_
  split
  · exact .refl (fun _ _ => rfl) _
  · refine .bind_same property.first.primitive fun primitive => ?_
    rintro (rfl | rfl)
    · rfl
    · rfl

theorem accessors_alike (side : Side) (scope : Scope) (property : Property) :
    AlikeOn unknown other side
      (accessors (settings.switched unknown interfaces) side scope property)
      (accessors (settings.switched other added) side scope property) := by
  refine .bind_same (propertyConstants settings property) fun constants => ?_
  dsimp only
  split
  · exact .bind_same (primitiveAccessors settings property side scope) fun _ _ => rfl
  · refine (enumAccessors_alike settings unknown other interfaces added property side scope).bind ?_
    exact fun lines others same agree => by rw [same agree]
  · exact .bind_same (viewAccessors settings property side scope) fun _ _ => rfl
  · exact .bind_same (viewAccessors settings property side scope) fun _ _ => rfl
  · exact .refl (fun _ _ => rfl) _

/-! ### Entries -/

theorem propertyEntry_alike (scope : Scope) (property : Property) :
    Alike (fun entry twin => unknown = other → entry = twin)
      (propertyEntry (settings.switched unknown interfaces) scope property)
      (propertyEntry (settings.switched other added) scope property) := by
  unfold propertyEntry
  split
  · refine .bind_same (settings.propertyName property.name) fun accessor => ?_
    rintro rfl
    rfl
  · exact .refl (fun _ _ => rfl) _

theorem compositeRender_alike (properties : List Property) :
    Alike (fun lines others => unknown = other → lines = others)
      (compositeRender (settings.switched unknown interfaces) properties)
      (compositeRender (settings.switched other added) properties) := by
  have entries := Alike.mapM_if fun property (_ : property ∈ properties) =>
    propertyEntry_alike settings unknown other interfaces added .composite property
  exact entries.bind fun _ _ same alike => by rw [same alike]

theorem bodyRender_alike (fields : List Property) (groups : List GroupLayout)
    (varData : List VarDataLayout) :
    Alike (fun lines others => unknown = other → lines = others)
      (bodyRender (settings.switched unknown interfaces) fields groups varData)
      (bodyRender (settings.switched other added) fields groups varData) := by
  have entries := Alike.mapM_if fun property (_ : property ∈ fields) =>
    propertyEntry_alike settings unknown other interfaces added .body property
  refine entries.bind fun fieldEntries twins same => ?_
  refine .bind_same (groups.mapM (groupEntry settings)) fun groupEntries => ?_
  refine .bind_same (varData.mapM (varDataEntry settings)) fun varDataEntries => ?_
  exact fun alike => by rw [same alike]

/-! ### Bodies and groups -/

theorem fieldAccessors_alike (side : Side) (layout : FieldLayout) :
    Alike (fun field twin => field.1 = twin.1 ∧
        (side = .encoder ∨ unknown = other → field.2 = twin.2))
      (fieldAccessors (settings.switched unknown interfaces) side layout)
      (fieldAccessors (settings.switched other added) side layout) := by
  refine .bind_same (Property.ofField layout) fun property => ?_
  refine (accessors_alike settings unknown other interfaces added side .body property).bind ?_
  exact fun lines others same => ⟨rfl, same⟩

theorem bodyMembers_alike (body : Body) (path : String) (side : Side) :
    AlikeOn unknown other side
      (bodyMembers (settings.switched unknown interfaces) body path side)
      (bodyMembers (settings.switched other added) body path side) := by
  refine .bind_same (Layout.splitFields 0 body.fields) fun layouts => ?_
  have each := Alike.mapM fun layout (_ : layout ∈ layouts) =>
    fieldAccessors_alike settings unknown other interfaces added side layout
  refine each.bind fun fields twins related => ?_
  have properties : fields.map Prod.fst = twins.map Prod.fst :=
    map_eq_map_of_forall₂ related fun _ _ pair => pair.1
  refine .bind_same (Layout.splitGroups 0 body.groups) fun groups => ?_
  refine .bind_same (groups.mapM (groupAccessors settings path side)) fun groupCode => ?_
  refine .bind_same (Layout.splitVarData 0 body.varData) fun varData => ?_
  refine .bind_same (varData.mapM (varDataAccessors settings side)) fun varDataCode => ?_
  cases side with
  | decoder =>
    dsimp only
    rw [properties]
    refine (bodyRender_alike settings unknown other interfaces added _ groups varData).bind
      fun lines others same => ?_
    rintro (encoding | alike)
    · cases encoding
    · rw [same alike, map_eq_map_of_forall₂ related fun _ _ pair => pair.2 (.inr alike)]
  | encoder =>
    exact fun agree => by rw [map_eq_map_of_forall₂ related fun _ _ pair => pair.2 agree]

theorem groupType_alike (layout : GroupLayout) (path : String) (side : Side) :
    AlikeOn unknown other side
      (groupType (settings.switched unknown interfaces) layout path side)
      (groupType (settings.switched other added) layout path side) := by
  refine .bind_same layout.blockLength.primitive fun blockLength => ?_
  refine .bind_same layout.numInGroup.primitive fun numInGroup => ?_
  refine .bind_same (literal blockLength (.uint layout.group.encodedLength) layout.blockLength.name)
    fun length => ?_
  have members := bodyMembers_alike settings unknown other interfaces added layout.body
    (groupPath path layout.group) side
  cases side with
  | decoder => exact members.bind fun lines others same agree => by rw [same agree]
  | encoder =>
    refine .bind_same (groupWrites layout blockLength numInGroup) fun opening => ?_
    exact members.bind fun lines others same agree => by rw [same agree]

/-- The types of groups end alike at every depth. -/
theorem groupTypes_alike (body : Body) (path : String) (side : Side) :
    AlikeOn unknown other side
      (groupTypes (settings.switched unknown interfaces) body path side)
      (groupTypes (settings.switched other added) body path side) := by
  induction size : body.size using Nat.strongRecOn generalizing body path with
  | ind total ih =>
    rw [groupTypes_eq, groupTypes_eq]
    cases found : Layout.splitGroups 0 body.groups with
    | error halt => exact (rfl : halt = halt)
    | ok layouts =>
      refine (@Alike.mapM_if _ _ _ (side = .encoder ∨ unknown = other) _ _ layouts
        fun layout member => ?_).bind fun types twins same => ?_
      · have small := Layout.size_lt_of_mem_splitGroups found member
        have wide : body.groups.length ≤ body.size := by
          unfold Body.size
          omega
        refine (groupType_alike settings unknown other interfaces added layout path side).bind
          fun type twin sameType => ?_
        refine (ih layout.body.size (by omega) layout.body _ rfl).bind
          fun nested inner sameNested => ?_
        exact fun agree => by rw [sameType agree, sameNested agree]
      · exact fun agree => by rw [same agree]

/-! ### Units

A codec of a message or composite is the same under all choices up to the interfaces, which come
last. -/

/-- Code with additions at its end, under two choices of the switches. -/
def AlikeBefore (side : Side) (additions : Code) (code twin : Result Code) : Prop :=
  Alike (fun lines others => side = .encoder ∨ unknown = other →
    ∃ core, lines = core ++ (if interfaces then additions else []) ∧
      others = core ++ if added then additions else []) code twin

theorem compositeUnit_alike (schema : Schema) (first : Token) (tokens : List Token) (side : Side) :
    AlikeBefore unknown other interfaces added side
      (compositeInterfaces settings (codecName first.typeName side) side)
      (compositeUnit (settings.switched unknown interfaces) schema first tokens side)
      (compositeUnit (settings.switched other added) schema first tokens side) := by
  refine .bind_same (members 0 (inner tokens)) fun properties => ?_
  refine .bind_same (schemaConstants schema) fun schemaLines => ?_
  have each :=
      @Alike.mapM_if _ _ _ (side = .encoder ∨ unknown = other) _ _ properties fun property _ =>
    accessors_alike settings unknown other interfaces added side .composite property
  refine each.bind fun functions twins same => ?_
  cases side with
  | decoder =>
    refine (compositeRender_alike settings unknown other interfaces added properties).bind
      fun lines others sameRender => ?_
    rintro (encoding | alike)
    · cases encoding
    · rw [same (.inr alike), sameRender alike]
      exact ⟨_, rfl, rfl⟩
  | encoder =>
    intro agree
    rw [same agree]
    exact ⟨_, rfl, rfl⟩

theorem messageUnit_alike (schema : Schema) (header : String) (first : Token) (tokens : List Token)
    (side : Side) :
    AlikeBefore unknown other interfaces added side
      (messageInterfaces settings (codecName first.name side) side)
      (messageUnit (settings.switched unknown interfaces) schema header first tokens side)
      (messageUnit (settings.switched other added) schema header first tokens side) := by
  refine .bind_same (Layout.decomposeMessage tokens) fun body => ?_
  refine .bind_same (headerTypes schema) fun types => ?_
  refine .bind_same
    (literal types.blockLength (.uint first.encodedLength) HeaderField.blockLength.name)
    fun blockLength => ?_
  refine .bind_same (literal types.templateId (.int first.id.toInt64) HeaderField.templateId.name)
    fun templateId => ?_
  refine .bind_same (schemaConstants schema) fun schemaLines => ?_
  refine (bodyMembers_alike settings unknown other interfaces added body _ side).bind
    fun members twins same => ?_
  refine (groupTypes_alike settings unknown other interfaces added body _ side).bind
    fun groups inner sameGroups => ?_
  intro agree
  rw [same agree, sameGroups agree]
  exact ⟨_, rfl, rfl⟩

/-- Enums have the same names and values under all choices. -/
theorem enumUnit_alike (first : Token) (tokens : List Token) :
    Alike (fun lines others => unknown = other → lines = others)
      (enumUnit (settings.switched unknown interfaces) first tokens)
      (enumUnit (settings.switched other added) first tokens) := by
  refine .bind_same (settings.typeName first.typeName) fun name => ?_
  refine .bind_same first.primitive fun primitive => ?_
  dsimp only
  split
  · exact .refl (fun _ _ => rfl) _
  · refine .bind_same (literal primitive (first.encoding.null?.getD primitive.null) first.name)
      fun null => ?_
    refine .bind_same ((inner tokens).mapM (enumValue settings primitive)) fun values => ?_
    rintro rfl
    rfl

end Switches

theorem Code.text_append (code added : Code) :
    ∃ rest, (code ++ added).text = code.text ++ rest := by
  unfold text
  by_cases none : code = []
  · subst none
    exact ⟨_, by rw [List.nil_append, String.intercalate_nil, String.empty_append]⟩
  by_cases nothing : added = []
  · subst nothing
    exact ⟨"", by rw [List.append_nil, String.append_empty]⟩
  · exact ⟨_, by rw [String.intercalate_append_of_ne_nil none nothing, String.append_assoc]⟩

theorem AlikeBefore.adds {unknown : Bool} {side : Side} {additions : Code} {code twin : Result Code}
    (alike : AlikeBefore unknown unknown false true side additions code twin) :
    Alike (fun code twin => ∃ added, twin.text = code.text ++ added) code twin := by
  refine alike.mono fun code twin same => ?_
  obtain ⟨core, rfl, rfl⟩ := same (.inr rfl)
  obtain ⟨rest, longer⟩ := core.text_append additions
  exact ⟨rest, by rw [if_pos rfl, longer, if_neg Bool.false_ne_true, List.append_nil]⟩

theorem AlikeBefore.keeps {interfaces : Bool} {additions : Code} {code twin : Result Code}
    (alike : AlikeBefore false true interfaces interfaces .encoder additions code twin) :
    Alike (fun code twin => twin.text = code.text) code twin := by
  refine alike.mono fun code twin same => ?_
  obtain ⟨core, rfl, rfl⟩ := same (.inl rfl)
  rfl

end Source

/-! ### Runs -/

namespace Plan.Purpose

/-- What interfaces may do to a unit: nothing to an enum or a set, and add to the end of other
units. -/
def AddsAtEnd (purpose : Purpose) (off on : String) : Prop :=
  match purpose with
  | enumeration .. | bitSet .. => on = off
  | composite .. | message .. => ∃ added, on = off ++ added
  | nothing _ => False

/-- What unknown enum values may do to a unit: nothing to a set or an encoder. -/
def KeepsEncoders (purpose : Purpose) (off on : String) : Prop :=
  match purpose with
  | bitSet .. | composite _ _ .encoder | message _ _ _ .encoder => on = off
  | enumeration .. | composite _ _ .decoder | message _ _ _ .decoder => True
  | nothing _ => False

theorem code_addsAtEnd (settings : Settings) (unknown : Bool) (schema : Schema)
    (purpose : Purpose) :
    Alike (fun code twin => purpose.AddsAtEnd code.text twin.text)
      (purpose.code (settings.switched unknown false) schema)
      (purpose.code (settings.switched unknown true) schema) := by
  cases purpose with
  | enumeration first tokens =>
    exact (Source.enumUnit_alike settings unknown unknown false true first tokens).mono
      fun code twin same => by rw [same rfl]; rfl
  | bitSet first tokens side =>
    refine Alike.refl (fun code => ?_) (Source.setUnit settings schema first tokens side)
    exact (rfl : code.text = code.text)
  | composite first tokens side =>
    exact (Source.compositeUnit_alike settings unknown unknown false true schema first tokens
      side).adds
  | message header first tokens side =>
    exact (Source.messageUnit_alike settings unknown unknown false true schema header first tokens
      side).adds
  | nothing cause => exact (rfl : Halt.refused cause = .refused cause)

theorem code_keepsEncoders (settings : Settings) (interfaces : Bool) (schema : Schema)
    (purpose : Purpose) :
    Alike (fun code twin => purpose.KeepsEncoders code.text twin.text)
      (purpose.code (settings.switched false interfaces) schema)
      (purpose.code (settings.switched true interfaces) schema) := by
  cases purpose with
  | enumeration first tokens =>
    exact (Source.enumUnit_alike settings false true interfaces interfaces first tokens).mono
      fun _ _ _ => trivial
  | bitSet first tokens side =>
    refine Alike.refl (fun code => ?_) (Source.setUnit settings schema first tokens side)
    exact (rfl : code.text = code.text)
  | composite first tokens side =>
    have alike :=
      Source.compositeUnit_alike settings false true interfaces interfaces schema first tokens side
    cases side with
    | decoder => exact alike.mono fun _ _ _ => trivial
    | encoder => exact alike.keeps
  | message header first tokens side =>
    have alike := Source.messageUnit_alike settings false true interfaces interfaces schema header
      first tokens side
    cases side with
    | decoder => exact alike.mono fun _ _ _ => trivial
    | encoder => exact alike.keeps
  | nothing cause => exact (rfl : Halt.refused cause = .refused cause)

end Plan.Purpose

namespace Schema

open Plan

/-- **The switches are conservative.** Two runs whose settings differ in one switch write units of
the same names and end in the same way. Interfaces change no enum and no set, and only add to the
end of other units; unknown enum values change no set and no encoder. -/
theorem generate_switches_conservative (schema : Schema) (settings : Settings) :
    Matches Purpose.AddsAtEnd schema.purposes
      (schema.generate { settings with generateInterfaces := false })
      (schema.generate { settings with generateInterfaces := true }) ∧
    Matches Purpose.KeepsEncoders schema.purposes
      (schema.generate { settings with decodeUnknownEnumValues := false })
      (schema.generate { settings with decodeUnknownEnumValues := true }) := by
  simp only [generate, ofSchema_eq]
  exact ⟨run_matches fun purpose _ =>
      purpose.code_addsAtEnd settings settings.decodeUnknownEnumValues schema,
    run_matches
      fun purpose _ => purpose.code_keepsEncoders settings settings.generateInterfaces schema⟩

end Schema

end Sbe
