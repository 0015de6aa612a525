import Mathlib.Algebra.Group.Int.Defs
import Sbe.Proofs.JsonText
import Sbe.Proofs.Outcome
import Sbe.Source.Literal

/-!
**Literals of integers.**

A literal is read back by the rules of the source, where a value of one integer type is expected.
The name of the type tells its sign and its width, and with them its bounds. A literal is a bound by
its name, or decimal digits. A minus sign applies to the number behind it, which has to be within
the type on its own: the size of a negative lower bound is not, so that bound has no decimal
literal.

* `IntegerType.exists_of_range?`: the range of a primitive is that of its type in the source;
* `IntegerType.read?_bounds`, `IntegerType.read?_toString`: the spellings of a literal;
* `read?_intLiteral`: what the literal of an integer within the range is read as;
* `literal_read_back`: the literals of scalars.
-/

namespace Sbe.Source

open Sbe.Number

/-- An integer type of the source. -/
structure IntegerType where
  signed : Bool
  bits : Nat
deriving DecidableEq

/-- A literal as it is spelled: a bound by its name, or digits with or without a minus sign. -/
inductive Spelling where
  | least
  | greatest
  | decimal (negative : Bool) (size : Nat)
deriving DecidableEq

namespace IntegerType

/-- The integer types of the source. -/
def all : List IntegerType := [8, 16, 32, 64, 128].flatMap fun bits => [⟨true, bits⟩, ⟨false, bits⟩]

/-- The name of a type: a letter for its sign, and the number of its bits. -/
def name (type : IntegerType) : String := (if type.signed then "i" else "u") ++ toString type.bits

/-- The least integer of a type. -/
def least (type : IntegerType) : Int := if type.signed then -2 ^ (type.bits - 1) else 0

/-- The greatest integer of a type. -/
def greatest (type : IntegerType) : Int :=
  if type.signed then 2 ^ (type.bits - 1) - 1 else 2 ^ type.bits - 1

/-! ### Reading -/

variable (type : IntegerType)

/-- The integer that a literal of the type stands for. -/
def value : Spelling → Int
  | .least => type.least
  | .greatest => type.greatest
  | .decimal negative size => withSign negative size

/-- The number of the type that a run of decimal digits stands for. -/
def readSize? (digits : List Char) : Option Nat :=
  if digits.isEmpty || !digits.all Char.isDigit then none
  else
    let size := Nat.ofDigitChars 10 digits 0
    if (size : Int) ≤ type.greatest then some size else none

/-- The decimal literal of the type that a text spells; only a signed type has a minus sign. -/
def readDecimal? : List Char → Option Spelling
  | '-' :: digits => if type.signed then (type.readSize? digits).map (.decimal true) else none
  | digits => (type.readSize? digits).map (.decimal false)

/-- The bound of the type that a text spells. -/
def readBound? (text : String) : Option Spelling :=
  if text = type.name ++ "::MIN" then some .least
  else if text = type.name ++ "::MAX" then some .greatest
  else none

/-- The literal of the type that a text spells. -/
def read? (text : String) : Option Spelling :=
  (type.readDecimal? text.toList).or (type.readBound? text)

variable {type}

theorem read?_bounds : ∀ type ∈ all, type.read? (type.name ++ "::MIN") = some .least ∧
    type.read? (type.name ++ "::MAX") = some .greatest := by
  decide +kernel

theorem readSize?_toDigits {size : Nat} (held : (size : Int) ≤ type.greatest) :
    type.readSize? (Nat.toDigits 10 size) = some size := by
  obtain ⟨filled, digits⟩ := Json.isDigits_toDigits size
  have empty : (Nat.toDigits 10 size).isEmpty = false := List.isEmpty_eq_false_iff.mpr filled
  rw [readSize?, empty, List.all_eq_true.mpr digits, Nat.ofDigitChars_ten_toDigits]
  exact if_pos held

theorem readDecimal?_toDigits {size : Nat} (held : (size : Int) ≤ type.greatest) :
    type.readDecimal? (Nat.toDigits 10 size) = some (.decimal false size) := by
  unfold readDecimal?
  split
  · next digits same =>
    have sign : '-' ∈ Nat.toDigits 10 size := by simp [same]
    exact absurd ((Json.isDigits_toDigits size).2 _ sign) (by decide)
  · rw [readSize?_toDigits held]
    rfl

theorem readDecimal?_minus (signed : type.signed = true) {size : Nat}
    (held : (size : Int) ≤ type.greatest) :
    type.readDecimal? ('-' :: Nat.toDigits 10 size) = some (.decimal true size) := by
  rw [readDecimal?, if_pos signed, readSize?_toDigits held]
  rfl

/-- The type holds the size of every integer it holds, but for a negative least one. -/
theorem natAbs_le_greatest {number : Int} (lower : type.least ≤ number)
    (upper : number ≤ type.greatest) (inner : ¬ (number = type.least ∧ type.least < 0)) :
    (number.natAbs : Int) ≤ type.greatest := by
  obtain ⟨signed, bits⟩ := type
  cases signed with
  | false =>
    have positive : 0 ≤ number := lower
    rwa [Int.natAbs_of_nonneg positive]
  | true =>
    have bound : (⟨true, bits⟩ : IntegerType).greatest =
        -(⟨true, bits⟩ : IntegerType).least - 1 := by
      simp [least, greatest]
    omega

theorem signed_of_least_neg (negative : type.least < 0) : type.signed = true := by
  by_contra unsigned
  rw [least, if_neg unsigned] at negative
  exact Int.lt_irrefl 0 negative

/-- Every integer of the type but a negative least one is read from its decimal digits. -/
theorem read?_toString {number : Int} (lower : type.least ≤ number) (upper : number ≤ type.greatest)
    (inner : ¬ (number = type.least ∧ type.least < 0)) :
    type.read? (toString number) = some (.decimal (decide (number < 0)) number.natAbs) := by
  have held := natAbs_le_greatest lower upper inner
  have decimals : type.readDecimal? (toString number).toList =
      some (.decimal (decide (number < 0)) number.natAbs) := by
    cases number with
    | ofNat size =>
      have positive : ¬ Int.ofNat size < 0 := Int.not_ofNat_neg size
      show type.readDecimal? (toString size).toList = _
      rw [Json.toList_toString, decide_eq_false positive]
      exact readDecimal?_toDigits held
    | negSucc size =>
      have negative : Int.negSucc size < 0 := Int.negSucc_lt_zero size
      have signed := signed_of_least_neg (Int.lt_of_le_of_lt lower negative)
      show type.readDecimal? ("-" ++ toString (size + 1)).toList = _
      rw [String.toList_append, Json.toList_toString, decide_eq_true negative]
      exact readDecimal?_minus signed held
  rw [read?, decimals]
  rfl

theorem value_decimal (number : Int) :
    type.value (.decimal (decide (number < 0)) number.natAbs) = number := by
  by_cases negative : number < 0
  · rw [decide_eq_true negative, value, withSign, if_pos rfl]
    omega
  · rw [decide_eq_false negative, value, withSign, if_neg Bool.false_ne_true]
    omega

/-- The range of a primitive is that of its type in the source. -/
theorem exists_of_range? {primitive : Primitive} {lower upper : Int}
    (whole : primitive.range? = some (lower, upper)) :
    ∃ type ∈ all, type.name = primitive.sourceType ∧ type.least = lower ∧
      type.greatest = upper := by
  have each : ∀ primitive ∈ Primitive.all, primitive.range? = none ∨
      ∃ type ∈ all, type.name = primitive.sourceType ∧
        primitive.range? = some (type.least, type.greatest) := by
    decide +kernel
  have member : primitive ∈ Primitive.all := by cases primitive <;> decide
  rcases each primitive member with absent | ⟨type, known, named, range⟩
  · rw [absent] at whole
    cases whole
  · rw [range] at whole
    cases whole
    exact ⟨type, known, named, rfl, rfl⟩

end IntegerType

/-! ### Literals of scalars -/

/-- The literal of an integer within the range is read as that integer, and is decimal only where
the integer is not a negative lower bound. -/
theorem read?_intLiteral {primitive : Primitive} {type : IntegerType}
    (known : type ∈ IntegerType.all) (named : type.name = primitive.sourceType) {number : Int}
    (lower : type.least ≤ number) (upper : number ≤ type.greatest) :
    ∃ spelling, type.read? (intLiteral primitive type.least type.greatest number) = some spelling ∧
      type.value spelling = number ∧
      ∀ negative size, spelling = .decimal negative size →
        ¬ (number = type.least ∧ type.least < 0) := by
  obtain ⟨readLeast, readGreatest⟩ := IntegerType.read?_bounds type known
  rw [intLiteral, ← named]
  split
  · next bound => exact ⟨.greatest, readGreatest, bound.1.symm, fun _ _ same => by cases same⟩
  split
  · next bound => exact ⟨.least, readLeast, bound.1.symm, fun _ _ same => by cases same⟩
  · next inner =>
    exact ⟨_, IntegerType.read?_toString lower upper inner, IntegerType.value_decimal number,
      fun _ _ _ => inner⟩

theorem literal_eq_ok_iff {primitive : Primitive} {least greatest : Int}
    (whole : primitive.range? = some (least, greatest)) {value : Scalar} {name text : String} :
    literal primitive value name = .ok text ↔ ∃ number, value.toInt? = some number ∧
      (least ≤ number ∧ number ≤ greatest) ∧ text = intLiteral primitive least greatest number := by
  rw [literal, whole, Outcome.ofOption_eq_ok_iff]
  constructor
  · intro found
    obtain ⟨number, read, found⟩ := Option.bind_eq_some_iff.mp found
    split at found
    · next inside => exact ⟨number, read, inside, (Option.some.inj found).symm⟩
    · cases found
  · rintro ⟨number, read, inside, rfl⟩
    exact Option.bind_eq_some_iff.mpr ⟨number, read, if_pos inside⟩

/-- **Literals of integers.** The type that an integer primitive has in the source has the range of
the primitive. A scalar has a literal exactly when it is an integer within that range. Read as a
value of the type, the literal stands for that integer, and it is decimal only where the integer is
not a negative lower bound. Two literals are the same text exactly when they stand for the same
integer. -/
theorem literal_read_back {primitive : Primitive} {least greatest : Int}
    (whole : primitive.range? = some (least, greatest)) :
    ∃ type ∈ IntegerType.all, type.name = primitive.sourceType ∧
      type.least = least ∧ type.greatest = greatest ∧
      (∀ value name, (∃ text, literal primitive value name = .ok text) ↔
        ∃ number, value.toInt? = some number ∧ least ≤ number ∧ number ≤ greatest) ∧
      (∀ value name text, literal primitive value name = .ok text →
        ∃ number spelling, value.toInt? = some number ∧ type.read? text = some spelling ∧
          type.value spelling = number ∧
          ∀ negative size, spelling = .decimal negative size → ¬ (number = least ∧ least < 0)) ∧
      ∀ value name text other otherName otherText, literal primitive value name = .ok text →
        literal primitive other otherName = .ok otherText →
        (text = otherText ↔
          (type.read? text).map type.value = (type.read? otherText).map type.value) := by
  obtain ⟨type, known, named, rfl, rfl⟩ := IntegerType.exists_of_range? whole
  refine ⟨type, known, named, rfl, rfl, fun value name => ⟨?_, ?_⟩, fun value name text made => ?_,
    ?_⟩
  · rintro ⟨text, made⟩
    obtain ⟨number, read, inside, _⟩ := (literal_eq_ok_iff whole).mp made
    exact ⟨number, read, inside⟩
  · rintro ⟨number, read, inside⟩
    exact ⟨_, (literal_eq_ok_iff whole).mpr ⟨number, read, inside, rfl⟩⟩
  · obtain ⟨number, read, ⟨lower, upper⟩, rfl⟩ := (literal_eq_ok_iff whole).mp made
    obtain ⟨spelling, found, stands⟩ := read?_intLiteral known named lower upper
    exact ⟨number, spelling, read, found, stands⟩
  · intro value name text other otherName otherText made otherMade
    refine ⟨fun same => by rw [same], fun same => ?_⟩
    obtain ⟨number, _, ⟨lower, upper⟩, rfl⟩ := (literal_eq_ok_iff whole).mp made
    obtain ⟨otherNumber, _, ⟨otherLower, otherUpper⟩, rfl⟩ := (literal_eq_ok_iff whole).mp otherMade
    obtain ⟨_, found, stands, _⟩ := read?_intLiteral known named lower upper
    obtain ⟨_, otherFound, otherStands, _⟩ := read?_intLiteral known named otherLower otherUpper
    rw [found, otherFound, Option.map_some, Option.map_some, stands, otherStands,
      Option.some.injEq] at same
    rw [same]

/-- The letter with the code 65 in four kinds of scalar, and the lower bound, as bytes with a
sign. -/
theorem int8_literals_read_back :
    Primitive.int8.range? = some (-128, 127) ∧
    (literal .int8 (.int 65) "grade" = .ok "65" ∧ literal .int8 (.uint 65) "grade" = .ok "65" ∧
      literal .int8 (.float ⟨0x4050400000000000⟩) "grade" = .ok "65" ∧
      literal .int8 (.text "A") "letter" = .ok "65" ∧
      literal .int8 (.text " -128 ") "grade" = .ok "i8::MIN") ∧
    ∃ type ∈ IntegerType.all, type.name = "i8" ∧
      (∃ number spelling, Scalar.toInt? (.text "A") = some number ∧
        type.read? "65" = some spelling ∧ type.value spelling = number) ∧
      (∃ number spelling, Scalar.toInt? (.text " -128 ") = some number ∧
        type.read? "i8::MIN" = some spelling ∧ type.value spelling = number) ∧
      ("65" = "i8::MIN" ↔
        (type.read? "65").map type.value = (type.read? "i8::MIN").map type.value) := by
  have letter : literal .int8 (.text "A") "letter" = .ok "65" := by decide +kernel
  have bound : literal .int8 (.text " -128 ") "grade" = .ok "i8::MIN" := by decide +kernel
  obtain ⟨type, known, named, _, _, _, stands, same⟩ :=
    literal_read_back (show Primitive.int8.range? = some (-128, 127) from rfl)
  obtain ⟨number, spelling, read, found, value, _⟩ := stands _ _ _ letter
  obtain ⟨lowest, spelled, lowestRead, lowestFound, lowestValue, _⟩ := stands _ _ _ bound
  exact ⟨rfl, ⟨by decide +kernel, by decide +kernel, by decide +kernel, letter, bound⟩, type, known,
    named, ⟨number, spelling, read, found, value⟩,
    ⟨lowest, spelled, lowestRead, lowestFound, lowestValue⟩, same _ _ _ _ _ _ letter bound⟩

end Sbe.Source
