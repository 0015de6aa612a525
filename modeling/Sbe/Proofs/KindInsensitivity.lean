import Sbe.Proofs.Rewording
import Sbe.Token.Build

/-!
**Generated source does not depend on the kinds of integers.**

Generated source shows the value of an integer, and almost nothing in a generation run asks for its
kind. The one place that does is the search for the variant of a constant enum, which compares
scalars with their kinds. Where the constant is one number with no value of its enum in two kinds, a
schema and its JSON form give the same run.

* `rewords_signed`: what source reads of tokens has no kinds;
* `isVariantOf_signed`: the search for a variant, where no kinds clash;
* `Schema.generate_signed`: the run of a schema with its integers in the signed kind;
* `Schema.generate_parsed_back`: the run of a schema that was written and read again.
-/

namespace Sbe

theorem Scalar.reading_signed (scalar : Scalar) : scalar.signed.reading = scalar.reading := by
  rw [reading, reading, toInt?_signed, toDouble?_signed, toText?_signed, shown_signed]

theorem map_reading_signed (declared : Option Scalar) :
    (declared.map Scalar.signed).map Scalar.reading = declared.map Scalar.reading := by
  have same : Scalar.reading ∘ Scalar.signed = Scalar.reading := funext Scalar.reading_signed
  rw [Option.map_map, same]

theorem rewords_signed : Rewords Token.signed where
  signal _ := rfl
  name _ := rfl
  span _ := rfl
  typeName _ := rfl
  id _ := rfl
  version _ := rfl
  offset _ := rfl
  encodedLength _ := rfl
  primitive _ := rfl
  byteOrder _ := rfl
  presence _ := rfl
  charset _ := rfl
  least token := map_reading_signed token.encoding.least
  greatest token := map_reading_signed token.encoding.greatest
  null token := map_reading_signed token.encoding.null
  constant token := map_reading_signed token.encoding.constant

namespace Source

/-! ### Constant enums -/

theorem Property.constant?_signed (property : Property) :
    (property.map Token.signed).constant? = property.constant?.map .signed := by
  have field : (property.field.map Token.signed).bind (fun field => field.encoding.constant) =
      (property.field.bind fun field => field.encoding.constant).map Scalar.signed := by
    cases property.field with
    | none => rfl
    | some field => rfl
  rw [constant?, constant?, Option.map_or, ← field]
  rfl

theorem isVariantOf_signed {value : Scalar} {token : Token}
    (apart : token.signal = .validValue → ∀ constant ∈ token.encoding.constant,
      constant.clashes value = false) :
    isVariantOf value.signed token.signed = isVariantOf value token := by
  unfold isVariantOf
  rw [Token.signal_signed, Token.encoding_signed, Encoding.constant_signed]
  by_cases signal : token.signal = .validValue
  · cases constant : token.encoding.constant with
    | none => rfl
    | some constant' =>
      have same := (Scalar.same_signed_iff constant' value).mpr (apart signal constant' constant)
      simp only [Option.map_some, same]
  · rw [beq_eq_false_iff_ne.mpr signal, Bool.false_and, Bool.false_and]

/-- Code stays the same where no constant enum depends on a kind. -/
theorem rewording_signed : Rewording Eq Token.signed Property.Settled where
  toRewords := rewords_signed
  refl _ := rfl
  append first second := congrArg₂ (· ++ ·) first second
  indent related := congrArg Code.indent related
  attributes _ _ := rfl
  semanticType _ := rfl
  variants {property} settled opens isConstant value other fixed imaged token member := by
    rw [Property.constant?_signed, fixed, Option.map_some] at imaged
    cases imaged
    exact isVariantOf_signed fun signal constant carried =>
      settled opens isConstant token member signal constant carried value fixed

end Source

namespace Schema

open Plan

theorem VariantsSettled.every {schema : Schema} (settled : schema.VariantsSettled) :
    ∀ purpose ∈ schema.purposes, purpose.Every Source.Property.Settled := by
  refine forall_purposes (fun _ => trivial) (fun first rest header side => ?_)
    (fun tokens member => ?_) fun _ _ _ tokens member => ?_
  · rw [← header]
    exact settled.header
  · cases tokens with
    | nil => exact List.forall_mem_singleton.mpr trivial
    | cons first rest =>
      rw [Purpose.ofType]
      split
      · exact List.forall_mem_singleton.mpr trivial
      · exact List.forall_mem_map.mpr fun _ _ => trivial
      · exact List.forall_mem_map.mpr fun _ _ => settled.types _ member
      · exact List.forall_mem_singleton.mpr trivial
  · cases tokens with
    | nil => exact List.forall_mem_singleton.mpr trivial
    | cons first rest => exact List.forall_mem_map.mpr fun _ _ => settled.messages _ member

/-- The run of a settled schema. -/
theorem generate_signed {schema : Schema} (settled : schema.VariantsSettled) (settings : Settings) :
    schema.signed.generate settings = schema.generate settings := by
  obtain ⟨ending, units⟩ := generate_reworded Source.rewording_signed settings settled.every
  have same : (schema.generate settings).units = (schema.signed.generate settings).units := by
    rw [← List.forall₂_eq_eq_eq]
    refine units.imp ?_
    rintro ⟨name, text⟩ ⟨twinName, twinText⟩ ⟨names, code, _, rfl, unitCode, twinCode⟩
    cases names
    cases unitCode
    cases twinCode
    rfl
  refine GenerationRun.ext same.symm ?_ ending.symm
  rw [generate, generate, Plan.written_run, Plan.written_run]
  exact congrArg List.length same.symm

/-- A schema and what is read back from its text give the same run, with the same units and the same
ending, where no constant enum depends on the kinds of integers. -/
theorem generate_parsed_back (schema : Schema) (finite : schema.FloatsFinite)
    (survive : schema.FloatsSurvive) (settled : schema.VariantsSettled) (settings : Settings) :
    ∃ other, parse schema.toJson.compact = .ok other ∧
      other.generate settings = schema.generate settings := by
  refine ⟨schema.normalize, parse_toJson survive, ?_⟩
  rw [normalize_eq_signed finite, generate_signed settled]

/-- A schema with a constant enum and with a double, whose integers are unsigned. -/
def tinted : Schema where
  packageName := "tinted"
  id := 1
  header := Build.messageHeader
  types := [Build.enumeration "Color" 0 (.of .uint8) [("red", .uint 5), ("blue", .int 6)]]
  messages := [Build.message "Paint" 1 8
    [Build.field "color" 1 0
      (Build.enumeration "Color" 0 ((Encoding.of .uint8).withConstant (.uint 5))
        [("red", .uint 5), ("blue", .int 6)]),
      Build.field "price" 2 0
        [Build.value "price" 0
          { Encoding.of .double with null := some (.float ⟨0x3fe0000000000000⟩) }]]]

theorem tinted_generate_parsed_back :
    tinted.FloatsFinite ∧ tinted.FloatsSurvive ∧ tinted.VariantsSettled ∧
    ∀ settings : Settings, ∃ other, parse tinted.toJson.compact = .ok other ∧
      other.generate settings = tinted.generate settings := by
  have known : ∀ scalar ∈ tinted.scalars,
      scalar ∈ [.uint 5, .int 6, .float ⟨0x3fe0000000000000⟩] := by
    decide +kernel
  have double (value : Number.Double) (member : .float value ∈ tinted.scalars) :
      value = ⟨0x3fe0000000000000⟩ := by
    simpa using known (.float value) member
  have finite : tinted.FloatsFinite := by
    intro value member
    rw [double value member]
    decide
  have survive : tinted.FloatsSurvive := by
    intro value member _
    rw [double value member, survives_iff]
    decide +kernel
  have settled : tinted.VariantsSettled := variantsSettled_of_kindsSettled (by decide +kernel)
  exact ⟨finite, survive, settled, generate_parsed_back tinted finite survive settled⟩

/-- A schema whose constant enum and enum value are one number in two kinds. -/
def clashing : Schema where
  packageName := "clashing"
  id := 1
  header := Build.messageHeader
  types :=
    [Build.enumeration "Color" 0 ((Encoding.of .uint8).withConstant (.int 5)) [("red", .uint 5)]]
  messages :=
    [Build.message "Paint" 1 0 [Build.field "color" 1 0 (Build.enumeration "Color" 0
          ((Encoding.of .uint8).withConstant (.int 5)) [("red", .uint 5)])]]

/-- The variant is not found as the schema was built, and is found after it was written and read
again. -/
theorem clashing_generate_differs :
    clashing.verify = .ok () ∧ (∀ value, .float value ∉ clashing.scalars) ∧
    (clashing.generate {}).ending = some (.refused (.missingConstant "color")) ∧
    ∃ other, parse clashing.toJson.compact = .ok other ∧ (other.generate {}).ending = none := by
  have verified : clashing.verify = .ok () := Outcome.eq_ok_of_isOk (by decide +kernel)
  have known : ∀ scalar ∈ clashing.scalars, scalar ∈ [.int 5, .uint 5] := by decide +kernel
  have none (value : Number.Double) : .float value ∉ clashing.scalars := by
    intro member
    simpa using known (.float value) member
  have survive : clashing.FloatsSurvive := fun value member => absurd member (none value)
  refine ⟨verified, none, by decide +kernel, clashing.normalize, parse_toJson survive,
    by decide +kernel⟩

end Schema

end Sbe
