import Mathlib.Data.List.Infix
import Sbe.Proofs.Charset
import Sbe.Proofs.IntegerLiterals
import Sbe.Proofs.Outcome
import Sbe.Source.Enumeration
import Sbe.Token.Build

/-!
**Enums over characters.**

A value of such an enum is a text of one character, and stands as a number in the functions of the
enum. The same text as a constant has the code of its character on the wire. Both agree but for
digits, as a text of one digit is read as a number.

* `Charset.encode_singleton`: the byte of a character, in every character set;
* `literal_character`: the number of a character;
* `enumUnit_character_arms`: the arms of the functions from and to values.
-/

namespace Sbe

open Text (Charset)

namespace Text.Charset

/-- The byte of a character of seven bits. -/
theorem encode_singleton {character : Char} (small : character.toNat ≤ 0x7f) (set : Charset) :
    set.encode (String.singleton character) = .ok [UInt8.ofNat character.toNat] := by
  have one : (String.singleton character).toList = [character] := String.toList_singleton character
  cases set with
  | ascii =>
    rw [encode, one]
    exact encodeUpTo_eq (List.forall_mem_singleton.mpr small)
  | latin1 =>
    rw [encode, one]
    exact encodeUpTo_eq (List.forall_mem_singleton.mpr (by omega))
  | utf8 =>
    rw [encode, one, Utf8.encode, List.flatMap_singleton, String.utf8EncodeChar]
    exact congrArg Except.ok (if_pos small)

end Text.Charset

/-- A text of one digit is its value. -/
theorem Scalar.toInt?_digit {character : Char} (digit : character.isDigit = true) :
    (Scalar.text (String.singleton character)).toInt? =
      some ((character.toNat - 48 : Nat) : Int) := by
  have each : ∀ value : Fin 10, (Scalar.text (String.singleton (Char.ofNat (48 + value)))).toInt? =
      some ((value : Nat) : Int) := by
    decide +kernel
  obtain ⟨least, greatest⟩ : 48 ≤ character.toNat ∧ character.toNat ≤ 57 :=
    Char.isDigit_iff_toNat.mp digit
  have same : Char.ofNat (48 + (character.toNat - 48)) = character := by
    rw [Nat.add_sub_cancel' least, Char.ofNat_toNat]
  have value := each ⟨character.toNat - 48, by omega⟩
  rwa [same] at value

/-- A text of one other character is its code. -/
theorem Scalar.toInt?_character {character : Char} (other : ¬ character.isDigit = true) :
    (Scalar.text (String.singleton character)).toInt? = some (character.toNat : Int) := by
  rw [toInt?, String.toList_singleton]
  exact if_neg other

namespace Source

/-- The literal of a number of one byte. -/
theorem literal_of_toInt? {value : Scalar} {number : Nat}
    (whole : value.toInt? = some (number : Int)) (small : number ≤ 255) (name : String) :
    literal .char value name = .ok (toString number) := by
  have inside : (0 : Int) ≤ number ∧ (number : Int) ≤ 255 := by omega
  have shown : intLiteral .char 0 255 number = toString number := by
    rw [intLiteral, if_neg (by simp), if_neg (by simp)]
    rfl
  exact (literal_eq_ok_iff rfl).mpr ⟨number, whole, inside, shown.symm⟩

/-- The literal of a text of one character: the value of a digit, and the code of any other
character. -/
theorem literal_character {character : Char} (small : character.toNat ≤ 0x7f) (name : String) :
    literal .char (.text (String.singleton character)) name =
      .ok (toString (if character.isDigit then character.toNat - 48 else character.toNat)) := by
  split
  · next digit => exact literal_of_toInt? (Scalar.toInt?_digit digit) (by omega) name
  · next other => exact literal_of_toInt? (Scalar.toInt?_character other) (by omega) name

/-! ### Arms -/

/-- The start of a function that is one match: its head, what it matches and its first arms. -/
def matchStart (head matched : String) (arms : Code) : Code :=
  (head ++ " \x7b") :: Code.indent ((matched ++ " \x7b") :: Code.indent arms)

theorem matchStart_infix (head matched : String) (arms others : Code) :
    matchStart head matched arms <:+: Code.block head (Code.block matched (arms ++ others)) := by
  refine ⟨[], Code.indent (Code.indent others ++ ["\x7d"]) ++ ["\x7d"], ?_⟩
  simp only [matchStart, Code.block, Code.indent, List.map_append, List.map_cons, List.nil_append,
    List.cons_append, List.append_assoc]

/-- The variant and the number of an arm belong to a value of an enum. The text of the value has one
byte on the wire, in every character set. The number is that byte, or the value of a digit. -/
def ArmOf (settings : Settings) (token : Token) (arm : String × Nat) : Prop :=
  settings.typeName token.name = .ok arm.1 ∧
    ∃ character byte, token.encoding.constant = some (.text (String.singleton character)) ∧
      (∀ set : Charset, set.encode (String.singleton character) = .ok [byte]) ∧
      arm.2 = if character.isDigit then byte.toNat - 48 else byte.toNat

/-- The arm of a value in the function from variants to values. -/
def valueArm (name : String) (arm : String × Nat) : String :=
  name ++ "::" ++ arm.1 ++ " => " ++ toString arm.2 ++ ","

/-- The head of the function from values to variants. -/
def getHead (unknown : Bool) : String :=
  "pub fn get(value: u8) -> " ++ if unknown then "Self" else "Result<Self, CodecError>"

/-- The arm of a value in the function from values to variants. -/
def getArm (unknown : Bool) (name : String) (arm : String × Nat) : String :=
  if unknown then toString arm.2 ++ " => " ++ name ++ "::" ++ arm.1 ++ ","
  else toString arm.2 ++ " => Ok(" ++ name ++ "::" ++ arm.1 ++ "),"

/-- A value of an enum whose text is one character of seven bits. -/
def IsCharacter (token : Token) : Prop :=
  ∃ character : Char, token.encoding.constant = some (.text (String.singleton character)) ∧
    character.toNat ≤ 0x7f

theorem enumValue_yields_arm (settings : Settings) {token : Token} (single : IsCharacter token) :
    Outcome.Yields (enumValue settings .char token) fun value =>
      ∃ arm, ArmOf settings token arm ∧
          (value.variant, value.literal) = (arm.1, toString arm.2) := by
  obtain ⟨character, constant, small⟩ := single
  intro value made
  unfold enumValue at made
  rw [constant, Outcome.ofOption, Outcome.ok_bind] at made
  obtain ⟨variant, spelled, made⟩ := Outcome.bind_eq_ok_iff.mp made
  rw [literal_character small] at made
  cases made
  have byte : (UInt8.ofNat character.toNat).toNat = character.toNat :=
    Text.Utf8.toNat_byte (by omega)
  exact ⟨(variant, if character.isDigit then character.toNat - 48 else character.toNat),
    ⟨spelled, character, .ofNat character.toNat, constant, Charset.encode_singleton small,
      by rw [byte]⟩, rfl⟩

/-- The values of an enum are told by their arms. -/
theorem enumValues_yield_arms (settings : Settings) {tokens : List Token}
    (each : ∀ token ∈ tokens, IsCharacter token) :
    Outcome.Yields (tokens.mapM (enumValue settings .char)) fun values =>
      ∃ arms, List.Forall₂ (ArmOf settings) tokens arms ∧
        values.map (fun value => (value.variant, value.literal)) =
          arms.map fun arm => (arm.1, toString arm.2) := by
  intro values made
  have related :=
    Outcome.Yields.mapM (fun token member => enumValue_yields_arm settings (each token member))
      values made
  clear made each
  induction related with
  | nil => exact ⟨[], .nil, rfl⟩
  | cons first _ ih =>
    obtain ⟨arm, armOf, same⟩ := first
    obtain ⟨arms, later, others⟩ := ih
    exact ⟨arm :: arms, .cons armOf later, by rw [List.map_cons, List.map_cons, same, others]⟩

section

variable {values : List EnumValue} {arms : List (String × Nat)}
  (told : values.map (fun value => (value.variant, value.literal)) =
    arms.map fun arm => (arm.1, toString arm.2))

include told

theorem map_arms (line : String → String → String) :
    values.map (fun value => line value.variant value.literal) =
      arms.map fun arm => line arm.1 (toString arm.2) := by
  have lines := congrArg (List.map fun pair : String × String => line pair.1 pair.2) told
  rwa [List.map_map, List.map_map] at lines

theorem enumToValue_arms (unknown : Bool) (name : String) :
    matchStart "pub const fn value(self) -> u8" "match self" (arms.map (valueArm name)) <:+:
      enumToValue unknown name "u8" values := by
  have lines := map_arms told fun variant shown => name ++ "::" ++ variant ++ " => " ++ shown ++ ","
  refine List.IsInfix.trans ?_ (List.infix_cons (List.infix_refl _))
  rw [lines, List.append_assoc]
  exact matchStart_infix _ _ _ _

theorem enumOfValue_arms (unknown : Bool) (name : String) :
    matchStart (getHead unknown) "match value" (arms.map (getArm unknown name)) <:+:
      enumOfValue unknown name "u8" values := by
  cases unknown with
  | true =>
    have lines :=
      map_arms told fun variant shown => shown ++ " => " ++ name ++ "::" ++ variant ++ ","
    refine List.IsInfix.trans ?_ (List.infix_cons (List.infix_refl _))
    rw [lines]
    exact matchStart_infix _ _ _ _
  | false =>
    have lines :=
      map_arms told fun variant shown => shown ++ " => Ok(" ++ name ++ "::" ++ variant ++ "),"
    refine List.IsInfix.trans ?_ (List.infix_cons (List.infix_refl _))
    rw [lines]
    exact matchStart_infix _ _ _ _

end

/-- The functions from and to values stand together in the unit of an enum. -/
theorem enumUnit_functions {settings : Settings} {first : Token} {tokens : List Token}
    {code : Code} (made : enumUnit settings first tokens = .ok code) :
    ∃ name primitive values, settings.typeName first.typeName = .ok name ∧
      first.primitive = .ok primitive ∧
      (inner tokens).mapM (enumValue settings primitive) = .ok values ∧
      Code.indent (enumToValue settings.decodeUnknownEnumValues name primitive.sourceType values ++
        enumOfValue settings.decodeUnknownEnumValues name primitive.sourceType
          values) <:+: code := by
  unfold enumUnit at made
  obtain ⟨name, spelled, made⟩ := Outcome.bind_eq_ok_iff.mp made
  obtain ⟨primitive, declared, made⟩ := Outcome.bind_eq_ok_iff.mp made
  dsimp only at made
  rw [Outcome.refuse_bind, Outcome.ite_refuse_eq_ok_iff] at made
  obtain ⟨null, _, made⟩ := Outcome.bind_eq_ok_iff.mp made.2
  obtain ⟨values, found, made⟩ := Outcome.bind_eq_ok_iff.mp made
  cases made
  refine ⟨name, primitive, values, spelled, declared, found, ?_⟩
  -- They follow the constant for the null value, inside the block that implements the enum.
  refine List.IsInfix.trans ?_
    (List.infix_append _ (Code.spaced (Code.block ("impl " ++ name) _)) _)
  refine List.IsInfix.trans ?_ ⟨["", "impl " ++ name ++ " \x7b"], ["\x7d"], rfl⟩
  exact List.IsInfix.map _ ⟨[Code.constant "NULL_VALUE" primitive.sourceType null],
    enumToText settings.decodeUnknownEnumValues name values, rfl⟩

/-- **Enums over characters.** The functions from and to values start with one arm for each value,
in order. It carries the byte that the same text has as a constant, unless the character is a digit:
then it carries the value of the digit. -/
theorem enumUnit_character_arms {settings : Settings} {first : Token} {tokens : List Token}
    (characters : first.encoding.primitive = some .char)
    (each : ∀ token ∈ inner tokens, IsCharacter token)
    {code : Code} (made : enumUnit settings first tokens = .ok code) :
    ∃ name arms, settings.typeName first.typeName = .ok name ∧
      List.Forall₂ (ArmOf settings) (inner tokens) arms ∧
      Code.indent (matchStart "pub const fn value(self) -> u8" "match self"
        (arms.map (valueArm name))) <:+: code ∧
      Code.indent (matchStart (getHead settings.decodeUnknownEnumValues) "match value"
        (arms.map (getArm settings.decodeUnknownEnumValues name))) <:+: code := by
  obtain ⟨name, primitive, values, spelled, declared, found, functions⟩ := enumUnit_functions made
  rw [Token.primitive, characters] at declared
  cases declared
  obtain ⟨arms, armsOf, told⟩ := enumValues_yield_arms settings each values found
  refine ⟨name, arms, spelled, armsOf, ?_, ?_⟩
  · have inside := (enumToValue_arms told settings.decodeUnknownEnumValues name).trans
      (List.infix_append [] _ (enumOfValue settings.decodeUnknownEnumValues name "u8" values))
    exact List.IsInfix.trans (inside.map _) functions
  · have inside := (enumOfValue_arms told settings.decodeUnknownEnumValues name).trans
      (List.infix_append (enumToValue settings.decodeUnknownEnumValues name "u8" values) _ [])
    rw [List.append_nil] at inside
    exact List.IsInfix.trans (inside.map _) functions

/-- The tokens of an enum with a letter and a digit. -/
def gradeTokens : List Token :=
  Build.enumeration "Grade" 0 (.of .char) [("best", .text "A"), ("five", .text "5")]

/-- The first of these tokens. -/
def gradeOpening : Token :=
  { signal := .beginEnum, name := "Grade", encodedLength := 1, componentTokenCount := 4,
    encoding := .of .char }

theorem isCharacter_of_mem_gradeTokens : ∀ token ∈ inner gradeTokens, IsCharacter token :=
  List.forall_mem_cons.mpr ⟨⟨'A', by decide, by decide⟩,
    List.forall_mem_singleton.mpr ⟨'5', by decide, by decide⟩⟩

theorem grade_character_arms :
    ∃ code, gradeOpening.encoding.primitive = some .char ∧
      (∀ token ∈ inner gradeTokens, IsCharacter token) ∧
      enumUnit {} gradeOpening gradeTokens = .ok code ∧
      ∃ name arms, Settings.typeName {} gradeOpening.typeName = .ok name ∧
        List.Forall₂ (ArmOf {}) (inner gradeTokens) arms ∧
        Code.indent (matchStart "pub const fn value(self) -> u8" "match self"
          (arms.map (valueArm name))) <:+: code ∧
        Code.indent (matchStart (getHead false) "match value" (arms.map (getArm false name))) <:+:
          code := by
  have done : (enumUnit {} gradeOpening gradeTokens).isOk = true := by decide +kernel
  obtain ⟨code, made⟩ := Outcome.exists_eq_ok_of_isOk done
  exact ⟨code, rfl, isCharacter_of_mem_gradeTokens, made,
    enumUnit_character_arms rfl isCharacter_of_mem_gradeTokens made⟩

/-- The digit of an enum is not carried by its code, which the same text has as a constant. -/
theorem grade_five_loses_code :
    gradeOpening.encoding.primitive = some .char ∧
      (∀ token ∈ inner gradeTokens, IsCharacter token) ∧
      ∃ code, enumUnit {} gradeOpening gradeTokens = .ok code ∧
        Charset.ascii.encode "5" = .ok [53] ∧
      "            Grade::Five => 5," ∈ code ∧ "            5 => Ok(Grade::Five)," ∈ code ∧
      "            Grade::Five => 53," ∉ code ∧ "            53 => Ok(Grade::Five)," ∉ code := by
  have shown : ∃ code ∈ (enumUnit {} gradeOpening gradeTokens).toOption,
      Charset.ascii.encode "5" = .ok [53] ∧
      "            Grade::Five => 5," ∈ code ∧ "            5 => Ok(Grade::Five)," ∈ code ∧
      "            Grade::Five => 53," ∉ code ∧ "            53 => Ok(Grade::Five)," ∉ code := by
    decide +kernel
  obtain ⟨code, found, lines⟩ := shown
  exact ⟨rfl, isCharacter_of_mem_gradeTokens, code, Outcome.eq_ok_of_mem_toOption found, lines⟩

end Source

end Sbe
