import Sbe.Proofs.Excerpts
import Sbe.Source.BitSet

/-!
**Bits of choices.**

The bit of a choice stands as the amount of a shift in the functions of its set, so it has to be
smaller than the width of the set. A set is refused for a negative bit and for one whose low word is
too large; the bit itself is not compared.

* `ChoiceOf`, `choice_eq_ok_iff`: the choices that are made of a token;
* `ChoiceOf.bit_lt_iff`: a bit is too large only beyond the words;
* `shifts_infix`: where the bits of a set stand in its code;
* `setUnit_shifts`: all shifts of a set, and when they are within its width.
-/

namespace Sbe.Source

/-- The choice of a token of a set. Its bit is the constant of the token as an integer, and the low
word of it is within the width of the set. -/
structure ChoiceOf (settings : Settings) (primitive : Primitive) (token : Token) (choice : Choice) :
    Prop where
  bit : token.encoding.constant.bind Scalar.toInt? = some choice.bit
  accessor : settings.propertyName token.name = .ok choice.accessor
  schemaName : choice.schemaName = token.name
  nonneg : 0 ≤ choice.bit
  low : lowWord choice.bit < 8 * primitive.size

/-- A token with an integer for its constant, and not a float or a text. -/
def IsWhole (token : Token) : Prop :=
  (∃ value, token.encoding.constant = some (.int value)) ∨
    ∃ value, token.encoding.constant = some (.uint value)

theorem choice_eq_ok_iff {settings : Settings} {primitive : Primitive} {token : Token}
    {made : Choice} :
    choice settings primitive token = .ok made ↔ ChoiceOf settings primitive token made := by
  unfold choice
  cases found : token.encoding.constant.bind Scalar.toInt? with
  | none =>
    constructor
    · intro made
      cases made
    · intro choiceOf
      rw [choiceOf.bit] at found
      cases found
  | some bit =>
    rw [Outcome.ofOption, Outcome.ok_bind]
    dsimp only
    rw [Outcome.refuse_bind, Outcome.ite_refuse_eq_ok_iff, Outcome.bind_eq_ok_iff]
    constructor
    · rintro ⟨fits, accessor, spelled, made⟩
      cases made
      exact ⟨found, spelled, rfl, by dsimp only; omega, by dsimp only; omega⟩
    · intro choiceOf
      obtain ⟨accessor, schemaName, kept⟩ := made
      obtain ⟨same, spelled, named, nonneg, low⟩ := choiceOf
      rw [found] at same
      cases same
      cases named
      dsimp only at nonneg low ⊢
      exact ⟨by omega, accessor, spelled, rfl⟩

section

variable {settings : Settings} {primitive : Primitive} {token : Token} {choice : Choice}
  (choiceOf : ChoiceOf settings primitive token choice)

include choiceOf

/-- The bit of a choice is within the width of its set exactly when it is a word. -/
theorem ChoiceOf.bit_lt_iff : choice.bit < 8 * primitive.size ↔ choice.bit < wordBound := by
  have width : 8 * primitive.size < wordBound := by cases primitive <;> decide
  obtain ⟨_, _, _, nonneg, low⟩ := choiceOf
  rw [lowWord] at low
  constructor
  · intro inside
    omega
  · intro inside
    rw [Nat.mod_eq_of_lt (by omega)] at low
    omega

/-- A bit that is given as an integer is a word. -/
theorem ChoiceOf.bit_lt_wordBound (whole : IsWhole token) : choice.bit < wordBound := by
  have found := choiceOf.bit
  obtain ⟨value, constant⟩ | ⟨value, constant⟩ := whole
  · rw [constant, Option.bind_some, Scalar.toInt?, Option.some.injEq] at found
    have small := value.toInt_lt
    rw [← found, wordBound]
    omega
  · rw [constant, Option.bind_some, Scalar.toInt?, Option.some.injEq] at found
    rw [← found]
    exact Int.ofNat_lt.mpr value.toNat_lt

end

/-! ### Shifts in the code of a set -/

/-- The function of a choice that shifts by its bit: a decoder tests the bit, an encoder changes
it. -/
def shiftFunction (primitive : Primitive) (choice : Choice) : Side → Code
  | .decoder =>
    Code.block
      ("pub const fn test_" ++ choice.accessor ++ "(value: " ++ primitive.sourceType ++ ") -> bool")
      ["0 != (value & (1" ++ primitive.sourceType ++ " << " ++ toString choice.bit ++ "))"]
  | .encoder =>
    Code.block ("pub const fn apply_" ++ choice.accessor ++ "(bits: " ++ primitive.sourceType ++
        ", value: bool) -> " ++ primitive.sourceType)
      ["if value \x7b",
        "    bits | (1" ++ primitive.sourceType ++ " << " ++ toString choice.bit ++ ")",
        "\x7d else \x7b",
        "    bits & !(1" ++ primitive.sourceType ++ " << " ++ toString choice.bit ++ ")",
        "\x7d"]

theorem shiftFunction_infix_choiceTest (primitive : Primitive) (choice : Choice) :
    shiftFunction primitive choice .decoder <:+: choiceTest primitive.sourceType choice := by
  have head : "pub const fn test_" = "pub const fn " ++ "test_" := rfl
  have start : "0 != (value & (1" = "0 != (value & " ++ "(1" := rfl
  have ending : "))" = ")" ++ ")" := rfl
  have same : shiftFunction primitive choice .decoder =
      Code.block ("pub const fn " ++
          ("test_" ++ choice.accessor ++ "(value: " ++ primitive.sourceType ++ ") -> bool"))
        ["0 != (value & " ++ choice.mask primitive.sourceType ++ ")"] := by
    rw [shiftFunction, head, start, ending, Choice.mask]
    simp only [String.append_assoc]
  rw [same]
  exact (Code.infix_spaced _).trans (List.suffix_append _ _).isInfix

theorem shiftFunction_infix_choiceChange (primitive : Primitive) (order : ByteOrder)
    (choice : Choice) :
    shiftFunction primitive choice .encoder <:+: choiceChange primitive order choice := by
  have head : "pub const fn apply_" = "pub const fn " ++ "apply_" := rfl
  have set : "    bits | (1" = "    bits | " ++ "(1" := rfl
  have clear : "    bits & !(1" = "    bits & !" ++ "(1" := rfl
  have same : shiftFunction primitive choice .encoder = Code.block
      ("pub const fn " ++ ("apply_" ++ choice.accessor ++ "(bits: " ++ primitive.sourceType ++
        ", value: bool) -> " ++ primitive.sourceType))
      ["if value \x7b", "    bits | " ++ choice.mask primitive.sourceType, "\x7d else \x7b",
        "    bits & !" ++ choice.mask primitive.sourceType, "\x7d"] := by
    rw [shiftFunction, head, set, clear, Choice.mask]
    simp only [String.append_assoc]
  rw [same]
  exact (Code.infix_spaced _).trans (List.suffix_append _ _).isInfix

/-- Every choice has its shifts among the members of its set. -/
theorem shiftFunction_infix_setMembers (primitive : Primitive) (order : ByteOrder)
    {choices : List Choice} {choice : Choice} (member : choice ∈ choices) (side : Side) :
    shiftFunction primitive choice side <:+: setMembers primitive order choices side := by
  unfold setMembers
  cases side with
  | decoder =>
    have among :=
      (shiftFunction_infix_choiceTest primitive choice).trans (Code.infix_flatMap member _)
    exact (among.trans (List.prefix_append _ _).isInfix).trans (List.suffix_append _ _).isInfix
  | encoder =>
    have among := (shiftFunction_infix_choiceChange primitive order choice).trans
      (Code.infix_flatMap member _)
    exact (among.trans (List.suffix_append _ _).isInfix).trans (List.suffix_append _ _).isInfix

/-- **Shifts of a set.** Every token of a set that has a unit makes a choice, whose bit is the
amount of the shifts in the function that tests or changes it. The bit is within the width of the
set exactly when it is a word, as it always is where the constant is an integer. -/
theorem setUnit_shifts {settings : Settings} {schema : Schema} {first : Token} {tokens : List Token}
    {side : Side} {code : Code} (made : setUnit settings schema first tokens side = .ok code) :
    ∃ primitive choices, first.encoding.primitive = some primitive ∧
      List.Forall₂ (ChoiceOf settings primitive) (inner tokens) choices ∧
      (∀ choice ∈ choices, Code.indent (shiftFunction primitive choice side) <:+: code) ∧
      List.Forall₂ (fun (token : Token) (choice : Choice) =>
        (choice.bit < 8 * primitive.size ↔ choice.bit < wordBound) ∧
        (IsWhole token → choice.bit < 8 * primitive.size)) (inner tokens) choices := by
  unfold setUnit at made
  obtain ⟨primitive, declared, made⟩ := Outcome.bind_eq_ok_iff.mp made
  dsimp only at made
  rw [Outcome.refuse_bind, Outcome.ite_refuse_eq_ok_iff] at made
  obtain ⟨choices, found, made⟩ := Outcome.bind_eq_ok_iff.mp made.2
  obtain ⟨schemaLines, _, made⟩ := Outcome.bind_eq_ok_iff.mp made
  cases made
  have yields : Outcome.Yields ((inner tokens).mapM (choice settings primitive))
      (List.Forall₂ (ChoiceOf settings primitive) (inner tokens)) :=
    .mapM fun token _ made done => choice_eq_ok_iff.mp done
  have each := yields choices found
  refine ⟨primitive, choices, Token.primitive_eq_ok_iff.mp declared, each, fun choice member => ?_,
    each.imp fun token choice choiceOf => ?_⟩
  · have among := shiftFunction_infix_setMembers primitive first.encoding.byteOrder member side
    exact List.IsInfix.trans (among.map _) (members_infix_view _ _ _ _ _)
  · exact ⟨choiceOf.bit_lt_iff,
      fun whole => choiceOf.bit_lt_iff.mpr (choiceOf.bit_lt_wordBound whole)⟩

/-- A schema without types and messages. -/
def extrasSchema : Schema := { packageName := "extras", id := 1, header := Build.messageHeader }

/-- The first token of a set of one byte. -/
def extrasOpening : Token :=
  { signal := .beginSet, name := "Extras", encodedLength := 1, componentTokenCount := 4,
    encoding := .of .uint8 }

/-- The tokens of a set with the least and the greatest bit that it can have. -/
def extrasTokens : List Token :=
  Build.bitSet "Extras" 0 (.of .uint8) [("sunRoof", 0), ("sportsPack", 7)]

theorem extras_shifts :
    ∃ code, setUnit {} extrasSchema extrasOpening extrasTokens .encoder = .ok code ∧
    ∃ primitive choices, extrasOpening.encoding.primitive = some primitive ∧
      List.Forall₂ (ChoiceOf {} primitive) (inner extrasTokens) choices ∧
      (∀ choice ∈ choices, Code.indent (shiftFunction primitive choice .encoder) <:+: code) ∧
      List.Forall₂ (fun (token : Token) (choice : Choice) =>
        (choice.bit < 8 * primitive.size ↔ choice.bit < wordBound) ∧
          (IsWhole token → choice.bit < 8 * primitive.size)) (inner extrasTokens) choices := by
  have done : (setUnit {} extrasSchema extrasOpening extrasTokens .encoder).isOk = true := by
    decide +kernel
  obtain ⟨code, made⟩ := Outcome.exists_eq_ok_of_isOk done
  exact ⟨code, made, setUnit_shifts made⟩

/-- The tokens of a set with a bit that is given as a text, one more than the greatest word. -/
def wideTokens : List Token :=
  Build.enclose extrasOpening [Build.named .choice (some .uint8) ("sunRoof", .uint 0),
    Build.named .choice (some .uint8) ("turbo", .text "18446744073709551616")]

/-- A set of one byte can have a unit that shifts by far more than its width. -/
theorem wide_shift_exceeds_width :
    ∃ code bit, setUnit {} extrasSchema extrasOpening wideTokens .decoder =
        .ok code ∧
          (inner wideTokens)[1]?.bind (fun token => token.encoding.constant.bind Scalar.toInt?) =
        some bit ∧ (8 * Primitive.uint8.size : Int) ≤ bit ∧
      "        0 != (value & (1u8 << 18446744073709551616))" ∈ code := by
  have shown : ∃ code ∈ (setUnit {} extrasSchema extrasOpening wideTokens .decoder).toOption,
      "        0 != (value & (1u8 << 18446744073709551616))" ∈ code := by
    decide +kernel
  obtain ⟨code, found, line⟩ := shown
  exact ⟨code, 18446744073709551616, Outcome.eq_ok_of_mem_toOption found, by decide +kernel,
    by decide, line⟩

end Sbe.Source
