import Sbe.Proofs.GuardLines
import Sbe.Proofs.Rewording

/-!
**Descriptive texts in generated source.**

A token can carry a description, a semantic type, an epoch and a unit of time. These texts are free,
and nothing but a few literals shows them. So a schema and what is left of it without them give the
same runs, line by line up to the text of these literals.

* `Token.undescribed`, `Schema.undescribed`: what is left;
* `Redescribed`: lines that differ in the text of one literal at most;
* `Code.Redescribed.congruence`: how code is put together keeps this;
* `metaAttributes_redescribed`, `semanticType_redescribed`: where the texts stand;
* `generate_redescribed`: whole runs.
-/

namespace Sbe

/-! ### Tokens without descriptive texts -/

/-- An encoding without descriptive texts. -/
def Encoding.undescribed (encoding : Encoding) : Encoding :=
  { encoding with semanticType := none, epoch := none, timeUnit := none }

/-- A token without descriptive texts. -/
def Token.undescribed (token : Token) : Token :=
  { token with description := none, encoding := token.encoding.undescribed }

/-- A schema without descriptive texts. -/
def Schema.undescribed (schema : Schema) : Schema :=
  { schema with
    header := schema.header.map Token.undescribed
    types := schema.types.map (List.map Token.undescribed)
    messages := schema.messages.map (List.map Token.undescribed) }

theorem rewords_undescribed : Rewords Token.undescribed where
  signal _ := rfl
  name _ := rfl
  span _ := rfl
  typeName _ := rfl
  id _ := rfl
  version _ := rfl
  offset _ := rfl
  encodedLength _ := rfl
  primitive _ := rfl
  byteOrder _ := rfl
  presence _ := rfl
  charset _ := rfl
  least _ := rfl
  greatest _ := rfl
  null _ := rfl
  constant _ := rfl

/-! ### Lines up to the text of a literal -/

/-- The parts of a text between its line feeds. -/
def Text.rows (text : String) : List String := (text.toList.splitOn '\n').map String.ofList

theorem Text.rows_of_plain {line : String} (plain : Plain line) : rows line = [line] := by
  rw [rows, List.splitOn_eq_singleton plain, List.map_singleton, String.ofList_toList]

namespace Source

open Sbe.Text (Plain quote rows rows_of_plain plain_append plain_quote plain_literal)

/-- The rows of a text are those of the lines it was made from. -/
theorem rows_text {code : Code} (filled : code ≠ []) : rows code.text = code.flatMap rows := by
  rw [rows, splitOn_text filled, List.map_flatMap]
  rfl

/-- A line, and the same with its one literal emptied or unchanged. -/
inductive Redescribed : String → String → Prop where
  | same (line : String) : Redescribed line line
  | literal {front back : String} (value : String) (before : Plain front ∧ '"' ∉ front.toList)
    (after : Plain back ∧ '"' ∉ back.toList) :
    Redescribed (front ++ quote value ++ back) (front ++ quote "" ++ back)

/-- Lines that are the same up to the text of one literal each. -/
def Code.Redescribed (code twin : Code) : Prop := List.Forall₂ Source.Redescribed code twin

theorem literal_not_isEmpty (front value back : String) :
    ¬ (front ++ quote value ++ back).isEmpty = true := by
  rw [String.isEmpty_iff]
  intro empty
  have none := congrArg String.toList empty
  simp [quote] at none

namespace Code.Redescribed

variable {code twin other twins : Code}

theorem refl (code : Code) : code.Redescribed code := List.forall₂_same.mpr fun line _ => .same line

theorem append (first : code.Redescribed twin) (second : other.Redescribed twins) :
    Code.Redescribed (code ++ other) (twin ++ twins) := List.rel_append first second

theorem indent (redescribed : code.Redescribed twin) :
    Code.Redescribed code.indent twin.indent := by
  unfold Code.Redescribed Code.indent
  rw [List.forall₂_map_left_iff, List.forall₂_map_right_iff]
  refine redescribed.imp fun line image related => ?_
  cases related with
  | same => exact .same _
  | @literal front back value before after =>
    have indented (value : String) :
        (if (front ++ quote value ++ back).isEmpty then front ++ quote value ++ back
            else "    " ++ (front ++ quote value ++ back)) =
          "    " ++ front ++ quote value ++ back := by
      rw [if_neg (literal_not_isEmpty front value back), ← String.append_assoc,
        ← String.append_assoc]
    rw [indented, indented]
    refine .literal value ⟨(plain_append _ _).mpr ⟨plain_literal rfl, before.1⟩, ?_⟩ after
    rw [String.toList_append, List.mem_append, not_or]
    exact ⟨by simp, before.2⟩

theorem congruence : Code.Congruence Code.Redescribed := ⟨refl, append, indent⟩

/-- So are the rows of the texts. -/
theorem text (redescribed : code.Redescribed twin) :
    List.Forall₂ Source.Redescribed (rows code.text) (rows twin.text) := by
  cases redescribed with
  | nil => exact List.forall₂_same.mpr fun line _ => .same line
  | cons first later =>
    rw [rows_text (by simp), rows_text (by simp)]
    refine List.rel_flatMap (.cons first later) fun line image related => ?_
    cases related with
    | same => exact refl _
    | @literal front back value before after =>
      have single (value : String) : rows (front ++ quote value ++ back) =
          [front ++ quote value ++ back] :=
        rows_of_plain (by simp [before.1, after.1])
      rw [single, single]
      exact .cons (.literal value before after) .nil

end Code.Redescribed

/-! ### Where descriptive texts stand -/

/-- The attributes of a token stand in literals. -/
theorem metaAttributes_redescribed (accessor : String) (token : Token) :
    (metaAttributes accessor token).Redescribed (metaAttributes accessor token.undescribed) := by
  have arm (value : String) {kind : String} (plain : Plain kind ∧ '"' ∉ kind.toList) :
      Redescribed ("MetaAttribute::" ++ kind ++ " => " ++ quote value ++ ",")
        ("MetaAttribute::" ++ kind ++ " => " ++ quote "" ++ ",") := by
    refine .literal value ⟨?_, ?_⟩ ⟨plain_literal rfl, by simp⟩
    · rw [plain_append, plain_append]
      exact ⟨⟨plain_literal rfl, plain.1⟩, plain_literal rfl⟩
    · simp [plain.2]
  unfold metaAttributes
  refine Code.Redescribed.congruence.function (Code.Redescribed.congruence.block ?_ _) _
  exact .cons (arm _ ⟨plain_literal rfl, by simp⟩) (.cons (arm _ ⟨plain_literal rfl, by simp⟩)
    (.cons (arm _ ⟨plain_literal rfl, by simp⟩) (Code.Redescribed.refl _)))

theorem semanticType_redescribed (first : Token) :
    Redescribed
      (Code.constant "SEMANTIC_TYPE" "&'static str" (quote (first.encoding.semanticType.getD "")))
      (Code.constant "SEMANTIC_TYPE" "&'static str"
        (quote (first.undescribed.encoding.semanticType.getD ""))) := by
  refine .literal _ ⟨?_, ?_⟩ ⟨plain_literal rfl, by simp⟩
  · simp only [plain_append]
    exact ⟨⟨⟨⟨plain_literal rfl, plain_literal rfl⟩, plain_literal rfl⟩, plain_literal rfl⟩,
      plain_literal rfl⟩
  · simp

theorem Property.constant?_undescribed (property : Property) :
    (property.map Token.undescribed).constant? = property.constant? := by
  obtain ⟨field, first, others⟩ := property
  cases field with
  | none => rfl
  | some field => rfl

/-- Code is the same up to the text of literals, for all properties. -/
theorem rewording_undescribed : Rewording Code.Redescribed Token.undescribed fun _ => True where
  toRewords := rewords_undescribed
  toCongruence := Code.Redescribed.congruence
  attributes := metaAttributes_redescribed
  semanticType token := .cons (semanticType_redescribed token) .nil
  variants {property} _ _ _ value other fixed imaged token _ := by
    rw [Property.constant?_undescribed, fixed] at imaged
    cases imaged
    rfl

end Source

namespace Schema

/-- **Descriptive texts stay in their literals.** A schema and what is left of it without
descriptive texts give runs that end in the same way after units of the same names, whose rows are
the same up to the text of one literal each. -/
theorem generate_redescribed (schema : Schema) (settings : Settings) :
    (schema.generate settings).ending = (schema.undescribed.generate settings).ending ∧
    List.Forall₂ (fun unit twin => unit.name = twin.name ∧
        List.Forall₂ Source.Redescribed (Text.rows unit.code) (Text.rows twin.code))
      (schema.generate settings).units (schema.undescribed.generate settings).units := by
  obtain ⟨ending, units⟩ := generate_reworded Source.rewording_undescribed settings
    fun purpose (_ : purpose ∈ schema.purposes) => purpose.every_of_forall fun _ => trivial
  refine ⟨ending, units.imp ?_⟩
  rintro unit twin ⟨name, code, others, related, unitCode, twinCode⟩
  rw [unitCode, twinCode]
  exact ⟨name, related.text⟩

end Schema

end Sbe
