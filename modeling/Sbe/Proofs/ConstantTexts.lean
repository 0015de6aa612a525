import Sbe.Proofs.DescriptiveTexts
import Sbe.Proofs.Excerpts
import Sbe.Proofs.FormattedNames
import Sbe.Proofs.QuotedText

/-!
**Free texts in generated source.**

A schema can fix a text as the value of a property. An array of characters shows it as a literal on
a row of its own, like the literals of descriptive texts. A constant enum takes it for the name of a
variant, and writes it without quotes. There a line feed in the text ends the row.

* `plain_pascalCase_iff`: line feeds in names of variants;
* `accessors_infix_code`: where the accessors of a property stand in its unit;
* `shows_constant`: what a decoder shows of a constant text;
* `free_texts_on_rows`: descriptive and constant texts of all schemas.
-/

namespace Sbe

/-! ### Line feeds in names -/

namespace Text

theorem feed_mem_lowerAfter {before word : List Char} (member : '\n' ∈ word) :
    '\n' ∈ lowerAfter before word := by
  induction word generalizing before with
  | nil => cases member
  | cons character rest ih =>
    rw [lowerAfter, List.mem_append]
    rcases List.mem_cons.mp member with rfl | later
    · rw [if_neg (by decide), lower_ascii (by decide)]
      exact .inl (by decide)
    · exact .inr (ih later)

end Text

namespace Name

open Sbe.Text

theorem feed_mem_capitalize {lowerRest : Bool} {word : List Char} (member : '\n' ∈ word) :
    '\n' ∈ capitalize lowerRest word := by
  cases word with
  | nil => cases member
  | cons first rest =>
    rw [capitalize, List.mem_append]
    rcases List.mem_cons.mp member with rfl | later
    · rw [upper_ascii (by decide)]
      exact .inl (by decide)
    · refine .inr ?_
      split
      · exact feed_mem_lowerAfter later
      · exact later

theorem exists_word_of_feed {before characters : List Char}
    (member : '\n' ∈ before ∨ '\n' ∈ characters) :
    ∃ word ∈ wordsFrom before characters, '\n' ∈ word := by
  induction characters generalizing before with
  | nil =>
    rcases member with inside | none
    · exact ⟨_, List.mem_singleton_self _, List.mem_reverse.mpr inside⟩
    · cases none
  | cons character rest ih =>
    rw [wordsFrom]
    split
    · next underscore =>
      rcases member with inside | inside
      · exact ⟨_, List.mem_cons_self, List.mem_reverse.mpr inside⟩
      · rcases List.mem_cons.mp inside with rfl | later
        · cases underscore
        · obtain ⟨word, found, broken⟩ := ih (.inr later)
          exact ⟨word, List.mem_cons_of_mem _ found, broken⟩
    · refine ih ?_
      rcases member with inside | inside
      · exact .inl (List.mem_cons_of_mem _ inside)
      · rcases List.mem_cons.mp inside with rfl | later
        · exact .inl List.mem_cons_self
        · exact .inr later

/-- A name in pascal case is on one row exactly when the name is. -/
theorem plain_pascalCase_iff {name : String} : Plain (pascalCase name) ↔ Plain name := by
  refine ⟨fun plain broken => plain ?_, plain_pascalCase⟩
  rw [pascalCase, String.toList_ofList]
  split
  · obtain ⟨word, found, inside⟩ := @exists_word_of_feed [] name.toList (.inr broken)
    refine List.mem_flatMap.mpr ⟨word, List.mem_filter.mpr ⟨found, ?_⟩, feed_mem_capitalize inside⟩
    cases word with
    | nil => cases inside
    | cons => rfl
  · exact feed_mem_capitalize broken

end Name

theorem Settings.plain_typeName_iff {settings : Settings}
    (plain : ∀ token ∈ settings.keywordAppendToken, Text.Plain token) {name formatted : String}
    (done : settings.typeName name = .ok formatted) : Text.Plain formatted ↔ Text.Plain name := by
  rcases escape_yields settings _ _ _ done with ⟨_, rfl⟩ | ⟨reserved, token, given, rfl⟩
  · exact Name.plain_pascalCase_iff
  · have word := Name.plain_of_isReserved reserved
    exact iff_of_true ((Text.plain_append _ _).mpr ⟨word, plain token given⟩)
      (Name.plain_pascalCase_iff.mp word)

/-! ### Where accessors stand -/

namespace Source

open Sbe.Layout
open Sbe.Text (Plain quote rows rows_of_plain plain_append plain_quote plain_literal)

theorem Declares.exists_contains {body : Body} {property : Property}
    (declares : Declares body property) :
    ∃ inner layouts layout, body.Contains inner ∧ splitFields 0 inner.fields = .ok layouts ∧
      layout ∈ layouts ∧ Property.ofField layout = .ok property := by
  induction declares with
  | field found member made => exact ⟨_, _, _, .self _, found, member, made⟩
  | group found member _ ih =>
    obtain ⟨inner, layouts, layout, contains, fields, inside, made⟩ := ih
    exact ⟨inner, layouts, layout, .group found member contains, fields, inside, made⟩

/-- The accessors of a member stand in the unit of its composite. -/
theorem accessors_infix_compositeUnit {settings : Settings} {schema : Schema} {first : Token}
    {tokens : List Token} {side : Side} {code : Code}
    (made : compositeUnit settings schema first tokens side = .ok code)
    {properties : List Property} (found : members 0 (inner tokens) = .ok properties)
    {property : Property} (member : property ∈ properties) :
    ∃ functions, accessors settings side .composite property = .ok functions ∧
      Code.indent functions <:+: code := by
  unfold compositeUnit at made
  rw [found, Outcome.ok_bind] at made
  obtain ⟨schemaLines, _, made⟩ := Outcome.bind_eq_ok_iff.mp made
  obtain ⟨all, each, made⟩ := Outcome.bind_eq_ok_iff.mp made
  obtain ⟨functions, emitted, inside⟩ := Code.infix_of_mapM each member
  have within (render : Code) : Code.indent functions <:+:
      view settings schemaLines first side (all.flatten ++ render) :=
    ((inside.trans (List.prefix_append _ _).isInfix).map _).trans
      (members_infix_view settings schemaLines first side _)
  refine ⟨functions, emitted, ?_⟩
  cases side with
  | decoder =>
    obtain ⟨render, _, made⟩ := Outcome.bind_eq_ok_iff.mp made
    cases made
    exact (within render).trans (List.prefix_append _ _).isInfix
  | encoder =>
    cases made
    exact (within []).trans (List.prefix_append _ _).isInfix

end Source

/-- A property is read by the decoder of a unit: it is a member of its composite, or a field of its
message, at any depth of groups. -/
inductive Plan.Purpose.Reads : Plan.Purpose → Source.Property → Prop where
  | member {first : Token} {tokens : List Token} {properties : List Source.Property}
    {property : Source.Property} (found : Source.members 0 (Source.inner tokens) = .ok properties)
    (member : property ∈ properties) : Reads (.composite first tokens .decoder) property
  | field {header : String} {first : Token} {tokens : List Token} {body : Body}
    {property : Source.Property} (found : Layout.decomposeMessage tokens = .ok body)
    (declares : Source.Declares body property) : Reads (.message header first tokens .decoder)
    property

namespace Source

open Sbe.Text (Plain quote rows rows_of_plain plain_append plain_quote plain_literal)

/-- The accessors of a property stand in the unit of its decoder. -/
theorem accessors_infix_code {settings : Settings} {schema : Schema} {purpose : Plan.Purpose}
    {code : Code} (made : purpose.code settings schema = .ok code) {property : Property}
    (reads : purpose.Reads property) :
    ∃ scope functions, accessors settings .decoder scope property = .ok functions ∧
      Code.indent functions <:+: code := by
  cases reads with
  | member found member => exact ⟨_, accessors_infix_compositeUnit made found member⟩
  | @field header first tokens _ _ found declares =>
    obtain ⟨inner, layouts, layout, contains, fields, inside, opened⟩ := declares.exists_contains
    have unit : messageUnit settings schema header first tokens .decoder = .ok code := made
    obtain ⟨path, members, own, among⟩ := members_infix_messageUnit unit found contains
    obtain ⟨functions, emitted, within⟩ := accessors_infix_bodyMembers own fields inside opened
    exact ⟨_, functions, emitted, (within.map _).trans among⟩

/-! ### What is shown of a constant -/

/-- Rows of lines among those of a text. -/
theorem rows_infix {part code : Code} (inside : part <:+: code) :
    part.flatMap rows <:+: rows code.text := by
  by_cases empty : code = []
  · subst empty
    rw [List.infix_nil.mp inside]
    exact List.nil_infix
  · rw [rows_text empty]
    exact inside.flatMap _

theorem indent_mem {line : String} (filled : line.isEmpty = false) {code : Code}
    (member : line ∈ code) : "    " ++ line ∈ code.indent := by
  refine List.mem_map.mpr ⟨line, member, ?_⟩
  rw [filled, if_neg Bool.false_ne_true]

theorem mem_function {signature line : String} (filled : line.isEmpty = false) :
    "    " ++ line ∈ Code.function signature [line] := by
  refine List.mem_cons_of_mem _ (List.mem_cons_of_mem _ (List.mem_append_left _ ?_))
  exact indent_mem filled List.mem_cons_self

/-- After a point, a constant text is the name. -/
theorem Property.variantName?_of_point {property : Property} {value name : String}
    (fixed : property.constant? = some (.text value)) (found : afterLastPoint? value = some name) :
    property.variantName? = some name := by
  simp [variantName?, fixed, Scalar.toText?, found]

theorem exists_variantName {settings : Settings} {property : Property} {variant : String}
    (made : constantVariant settings property = .ok variant) :
    ∃ name, property.variantName? = some name ∧ settings.typeName name = .ok variant := by
  rw [constantVariant_eq] at made
  obtain ⟨name, found, made⟩ := Outcome.bind_eq_ok_iff.mp made
  exact ⟨name, Outcome.ofOption_eq_ok_iff.mp found, made⟩

/-- A text that the schema fixes is a line of its own. -/
theorem quote_mem_constantText {property : Property} {value accessor : String} {code : Code}
    (made : constantText property value accessor .decoder = .ok code) :
    "    " ++ quote value ∈ code := by
  unfold constantText at made
  obtain ⟨set, _, made⟩ := Outcome.bind_eq_ok_iff.mp made
  split at made
  · cases made
  · cases made
    refine List.mem_append_right _ (mem_function ?_)
    simp [quote]

section

variable {settings : Settings} {scope : Scope} {property : Property} {functions : Code}
  (emitted : accessors settings .decoder scope property = .ok functions)
  (constant : property.isConstant = true)

include emitted constant

/-- The text of a constant array of characters is a line of its own. -/
theorem quote_mem_accessors (signal : property.first.signal = .encoding)
    (primitive : property.first.primitive = .ok .char) {value : String}
    (fixed : property.constant? = some (.text value)) : "    " ++ quote value ∈ functions := by
  have text : primitiveAccessors settings property .decoder scope =
      settings.propertyName property.name >>= fun accessor =>
        constantText property value accessor .decoder := by
    simp only [primitiveAccessors, primitive, Outcome.ok_bind, constant, if_true, constantAccessors,
      fixed, Outcome.ofOption]
  simp only [accessors, signal, text] at emitted
  obtain ⟨constants, _, emitted⟩ := Outcome.bind_eq_ok_iff.mp emitted
  obtain ⟨code, made, emitted⟩ := Outcome.bind_eq_ok_iff.mp emitted
  obtain ⟨accessor, _, made⟩ := Outcome.bind_eq_ok_iff.mp made
  cases emitted
  exact List.mem_append_right _ (quote_mem_constantText made)

/-- The text of a constant of another primitive type is read as a number. -/
theorem number_mem_accessors (signal : property.first.signal = .encoding) {primitive : Primitive}
    (typed : property.first.primitive = .ok primitive) (other : primitive ≠ .char)
    {value : String} (fixed : property.constant? = some (.text value)) :
    ∃ shown, literal primitive (.text value) property.name = .ok shown ∧
      Code.constant (Name.upperSnakeCase property.name ++ "_VALUE") primitive.sourceType shown ∈
        functions := by
  have number : primitiveAccessors settings property .decoder scope =
      constantAccessors settings property primitive .decoder := by
    simp only [primitiveAccessors, typed, Outcome.ok_bind, constant, if_true]
  simp only [accessors, signal, number] at emitted
  obtain ⟨constants, _, emitted⟩ := Outcome.bind_eq_ok_iff.mp emitted
  obtain ⟨code, made, emitted⟩ := Outcome.bind_eq_ok_iff.mp emitted
  cases emitted
  simp only [constantAccessors, fixed, Outcome.ofOption, Outcome.ok_bind] at made
  obtain ⟨accessor, _, made⟩ := Outcome.bind_eq_ok_iff.mp made
  split at made
  · exact absurd rfl other
  · obtain ⟨shown, literal, made⟩ := Outcome.bind_eq_ok_iff.mp made
    cases made
    exact ⟨shown, literal, List.mem_append_right _ List.mem_cons_self⟩

/-- The variant of a constant enum is a line of its own. -/
theorem variant_mem_accessors (signal : property.first.signal = .beginEnum) :
    ∃ enumName variant, settings.typeName property.first.typeName = .ok enumName ∧
      constantVariant settings property = .ok variant ∧
      "    " ++ (enumName ++ "::" ++ variant) ∈ functions := by
  simp only [accessors, signal, enumAccessors, constant, if_true] at emitted
  obtain ⟨constants, _, emitted⟩ := Outcome.bind_eq_ok_iff.mp emitted
  obtain ⟨code, made, emitted⟩ := Outcome.bind_eq_ok_iff.mp emitted
  obtain ⟨accessor, _, made⟩ := Outcome.bind_eq_ok_iff.mp made
  obtain ⟨enumName, named, made⟩ := Outcome.bind_eq_ok_iff.mp made
  obtain ⟨variant, found, made⟩ := Outcome.bind_eq_ok_iff.mp made
  cases made
  cases emitted
  refine ⟨enumName, variant, named, found, List.mem_append_right _ (mem_function ?_)⟩
  simp

end

/-- What the text of a decoder shows of a constant property: an array of characters as a literal on
a row of its own, the text of another primitive type as a number, an enum as a name. The name stays
on its row exactly when the name in the schema has no line feed. -/
structure ShowsConstant (settings : Settings) (property : Property) (text : String) : Prop where
  characters : property.first.signal = .encoding → property.first.primitive = .ok .char →
    ∀ value, property.constant? = some (.text value) → "        " ++ quote value ∈ rows text
  number : property.first.signal = .encoding →
    ∀ primitive ≠ .char, property.first.primitive = .ok primitive →
    ∀ value, property.constant? = some (.text value) → ∃ shown,
      literal primitive (.text value) property.name = .ok shown ∧ Plain shown ∧
      rows ("    " ++
          Code.constant (Name.upperSnakeCase property.name ++ "_VALUE") primitive.sourceType
            shown) <:+:
        rows text
  variant : property.first.signal = .beginEnum → ∃ enumName name variant,
    settings.typeName property.first.typeName = .ok enumName ∧ property.variantName? = some name ∧
      settings.typeName name = .ok variant ∧
      rows ("        " ++ (enumName ++ "::" ++ variant)) <:+: rows text ∧
      ((∀ token ∈ settings.keywordAppendToken, Plain token) → (Plain variant ↔ Plain name))

section

variable {line : String} {functions code : Code} (inside : Code.indent functions <:+: code)

include inside

theorem rows_infix_of_mem (filled : line.isEmpty = false) (member : line ∈ functions) :
    rows ("    " ++ line) <:+: rows code.text := by
  obtain ⟨before, after, split⟩ := List.append_of_mem (indent_mem filled member)
  have single : ["    " ++ line] <:+: code :=
    List.IsInfix.trans ⟨before, after, by simp [split]⟩ inside
  have within := rows_infix single
  rwa [List.flatMap_singleton] at within

/-- A line of the body of a function is indented twice. -/
theorem rows_infix_of_mem_body (member : "    " ++ line ∈ functions) :
    rows ("        " ++ line) <:+: rows code.text := by
  have within := rows_infix_of_mem inside (by simp) member
  have doubled : "    " ++ "    " = "        " := by decide
  rwa [← String.append_assoc, doubled] at within

end

/-- A decoder shows the constants that it reads. -/
theorem shows_constant {settings : Settings} {schema : Schema} {purpose : Plan.Purpose}
    {code : Code} (made : purpose.code settings schema = .ok code) {property : Property}
    (reads : purpose.Reads property) (constant : property.isConstant = true) :
    ShowsConstant settings property code.text := by
  obtain ⟨scope, functions, emitted, inside⟩ := accessors_infix_code made reads
  constructor
  · intro signal primitive value fixed
    have within :=
      rows_infix_of_mem_body inside (quote_mem_accessors emitted constant signal primitive fixed)
    have plain : Plain ("        " ++ quote value) :=
      (plain_append _ _).mpr ⟨plain_literal rfl, plain_quote value⟩
    rw [rows_of_plain plain] at within
    exact within.subset List.mem_cons_self
  · intro signal primitive other typed value fixed
    obtain ⟨shown, done, member⟩ := number_mem_accessors emitted constant signal typed other fixed
    have filled (front : String) : (front ++ ";").isEmpty = false := by simp
    exact ⟨shown, done, literal_yields _ _ _ _ done, rows_infix_of_mem inside (filled _) member⟩
  · intro signal
    obtain ⟨enumName, variant, named, found, member⟩ :=
      variant_mem_accessors emitted constant signal
    obtain ⟨name, known, formatted⟩ := exists_variantName found
    exact ⟨enumName, name, variant, named, known, formatted, rows_infix_of_mem_body inside member,
      fun plain => settings.plain_typeName_iff plain formatted⟩

end Source

namespace Schema

open Plan Source
open Sbe.Text (IsOneLiteral quote rows)

/-- Where a run comes to its end, all constants are shown. -/
theorem generate_shows_constant {schema : Schema} {settings : Settings}
    (ended : (schema.generate settings).ending = none) {purpose : Purpose}
    (planned : purpose ∈ schema.purposes) {property : Property} (reads : purpose.Reads property)
    (constant : property.isConstant = true) :
    ∃ unit ∈ (schema.generate settings).units, unit.name = purpose.name ∧
      ShowsConstant settings property unit.code := by
  rw [generate, ofSchema_eq] at ended ⊢
  obtain ⟨unit, member, name, code, made, emitted⟩ := exists_of_forall₂ (forall₂_run ended) planned
  refine ⟨unit, member, name, ?_⟩
  rw [emitted]
  exact shows_constant made reads constant

/-- **Free texts stay in their literals, names of variants apart.** A quoted text is one literal on
one line, read back as that text, with one end whatever comes behind it; different texts have
different literals. Without descriptive texts a schema gives the same run, row by row up to the text
of one literal each. Where a run comes to its end, the text of a constant array of characters is a
literal on a row of its own, and that of another primitive type a number. A constant enum shows the
name of its variant without quotes, and a line feed in that name ends the row. -/
theorem free_texts_on_rows (schema : Schema) (settings : Settings) :
    (∀ text, IsOneLiteral (quote text) text) ∧ Function.Injective quote ∧
    ((schema.generate settings).ending = (schema.undescribed.generate settings).ending ∧
      List.Forall₂ (fun unit twin => unit.name = twin.name ∧
          List.Forall₂ Redescribed (rows unit.code) (rows twin.code))
        (schema.generate settings).units (schema.undescribed.generate settings).units) ∧
    ((schema.generate settings).ending = none → ∀ purpose ∈ schema.purposes, ∀ property,
      purpose.Reads property → property.isConstant = true →
      ∃ unit ∈ (schema.generate settings).units, unit.name = purpose.name ∧
        ShowsConstant settings property unit.code) :=
  ⟨Text.isOneLiteral_quote, Text.quote_injective, generate_redescribed schema settings,
    fun ended _ planned _ reads constant => generate_shows_constant ended planned reads constant⟩

/-- A text with quotes, a line feed and a brace. -/
def motto : Token :=
  { signal := .encoding, name := "motto", encoding :=
    { (Encoding.of .char).withConstant (.text "\"go\"\n\x7d") with semanticType := some "\"\n\\" } }

/-- An enum with a constant that has a line feed. -/
def constantModel : List Token :=
  Build.enumeration "Model" 0
    ((Encoding.of .uint8).withConstant (.text "Model.saloon \x7d\n    pub fn added() \x7b"))
    [("saloon", .uint 1)]

/-- A message of the two. -/
def plateTokens : List Token :=
  Build.message "Plate" 1 0 [Build.field "motto" 1 0 [motto], Build.field "model" 2 0 constantModel]

/-- A schema of that message and the enum of its models. -/
def plates : Schema where
  packageName := "plates"
  id := 1
  header := Build.messageHeader
  types := [Build.enumeration "Model" 0 (.of .uint8) [("saloon", .uint 1)]]
  messages := [plateTokens]

/-- The decoder of a plate reads both constants. -/
theorem plates_reads : ∃ purpose ∈ plates.purposes, purpose.name = "plate_decoder" ∧
    ∀ first others, first :: others ∈ [[motto], constantModel] →
      ∃ field, purpose.Reads ⟨some field, first, others⟩ := by
  have read : ∃ body ∈ (Layout.decomposeMessage plateTokens).toOption,
      ∃ layouts ∈ (Layout.splitFields 0 body.fields).toOption,
        layouts.map FieldLayout.type = [[motto], constantModel] := by
    decide +kernel
  obtain ⟨body, found, layouts, fields, types⟩ := read
  refine ⟨_, message_mem_purposes rfl List.mem_cons_self .decoder, by decide +kernel, ?_⟩
  intro first others member
  rw [← types] at member
  obtain ⟨layout, inside, type⟩ := List.mem_map.mp member
  refine ⟨layout.field, .field (Outcome.eq_ok_of_mem_toOption found)
    (.field (Outcome.eq_ok_of_mem_toOption fields) inside ?_)⟩
  rw [Property.ofField, type]

/-- The motto is on a row of its own. -/
theorem plates_texts_on_rows : (plates.generate {}).ending = none ∧
    ∃ unit ∈ (plates.generate {}).units, unit.name = "plate_decoder" ∧
      "        \"\\\"go\\\"\\n\x7d\"" ∈ rows unit.code := by
  have ended : (plates.generate {}).ending = none := by decide +kernel
  obtain ⟨purpose, planned, name, reads⟩ := plates_reads
  obtain ⟨field, read⟩ := reads motto [] List.mem_cons_self
  obtain ⟨_, _, _, shows⟩ := free_texts_on_rows plates {}
  obtain ⟨unit, member, same, shown⟩ := shows ended purpose planned _ read rfl
  have row := shown.characters rfl rfl _ rfl
  have spelled : "        " ++ quote "\"go\"\n\x7d" = "        \"\\\"go\\\"\\n\x7d\"" := by
    decide +kernel
  rw [spelled] at row
  exact ⟨ended, unit, member, same.trans name, row⟩

/-- The constant of the model ends its row, and the rest of it is a row of its own. -/
theorem plates_constant_ends_row : plates.verify = .ok () ∧ (plates.generate {}).ending = none ∧
    ∃ unit ∈ (plates.generate {}).units, unit.name = "plate_decoder" ∧
      ["        Model::Saloon \x7d", "    pub fn added() \x7b"] <:+: rows unit.code := by
  have accepted : plates.verify = .ok () := Outcome.eq_ok_of_isOk (by decide +kernel)
  have ended : (plates.generate {}).ending = none := by decide +kernel
  obtain ⟨purpose, planned, name, reads⟩ := plates_reads
  obtain ⟨field, read⟩ := reads _ _ (List.mem_cons_of_mem _ (List.mem_singleton_self constantModel))
  obtain ⟨unit, member, same, shown⟩ := generate_shows_constant ended planned read rfl
  obtain ⟨enumName, schemaName, variant, named, found, formatted, within, _⟩ := shown.variant rfl
  have schemaIs : afterLastPoint? "Model.saloon \x7d\n    pub fn added() \x7b" =
      some "saloon \x7d\n    pub fn added() \x7b" := by decide +kernel
  have enumIs : Settings.typeName {} "Model" = .ok "Model" :=
    Outcome.eq_ok_of_mem_toOption (by decide +kernel)
  have variantIs : Settings.typeName {} "saloon \x7d\n    pub fn added() \x7b" =
    .ok "Saloon \x7d\n    pub fn added() \x7b" := Outcome.eq_ok_of_mem_toOption (by decide +kernel)
  cases found.symm.trans (Property.variantName?_of_point rfl schemaIs)
  rw [variantIs] at formatted
  cases named.symm.trans enumIs
  cases formatted
  have split : rows ("        " ++ ("Model" ++ "::" ++ "Saloon \x7d\n    pub fn added() \x7b")) =
      ["        Model::Saloon \x7d", "    pub fn added() \x7b"] := by decide +kernel
  rw [split] at within
  exact ⟨accepted, ended, unit, member, same.trans name, within⟩

end Schema

end Sbe
