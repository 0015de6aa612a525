import Mathlib.Algebra.Group.Nat.Defs
import Sbe.Json.Number

/-!
**Ratios that round to finite doubles.**

The bit pattern of a double without its sign grows with its magnitude, so a bound on a ratio is a
bound on the pattern it rounds to. Division by a power of ten keeps a double far below infinity.

* `isFinite_iff`: finite doubles by their patterns;
* `Below`: doubles whose exponent is bounded; `below_ofRatio`, `Below.magnitude`: from ratios and
  back;
* `below_divideByTen`: division by powers of ten;
* `isFinite_of_size?`: the size of a numeral is finite.
-/

namespace Sbe.Number

/-- A double is finite if its pattern without the sign is below that of infinity. -/
theorem isFinite_iff (value : Double) :
    value.isFinite = true ↔ value.bits.toNat % 2 ^ 63 < 2047 * 2 ^ 52 := by
  have field : value.bits.toNat / twoTo double.fraction % twoTo double.exponent =
    value.bits.toNat / 4503599627370496 % 2048 := rfl
  unfold Double.isFinite Double.datum Format.datum
  simp only [field, show double.topField = 2047 from rfl]
  by_cases top : value.bits.toNat / 4503599627370496 % 2048 = 2047
  · rw [if_pos top]
    have large : ¬ value.bits.toNat % 2 ^ 63 < 2047 * 2 ^ 52 := by omega
    refine iff_of_false ?_ large
    by_cases none : value.bits.toNat % twoTo double.fraction = 0
    · simp [none]
    · simp [none]
  · rw [if_neg top]
    have small : value.bits.toNat % 2 ^ 63 < 2047 * 2 ^ 52 := by omega
    refine iff_of_true ?_ small
    by_cases bottom : value.bits.toNat / 4503599627370496 % 2048 = 0
    · rw [if_pos bottom]
    · rw [if_neg bottom]

theorem isFinite_neg {value : Double} (finite : value.isFinite = true) :
    value.neg.isFinite = true := by
  rw [isFinite_iff] at finite ⊢
  have same : value.neg.bits.toNat % 2 ^ 63 = value.bits.toNat % 2 ^ 63 := by
    show (value.bits ^^^ 9223372036854775808).toNat % 2 ^ 63 = _
    rw [UInt64.toNat_xor, Nat.xor_mod_two_pow]
    simp
  rw [same]
  exact finite

/-- A double without a sign whose exponent is bounded. -/
def Below (bound : Nat) (value : Double) : Prop := value.bits.toNat < (bound + 1027) * 2 ^ 52

theorem Below.mono {bound other : Nat} {value : Double} (below : Below bound value)
    (order : bound ≤ other) : Below other value :=
  Nat.lt_of_lt_of_le below (Nat.mul_le_mul_right _ (by omega))

theorem Below.isFinite {bound : Nat} {value : Double} (below : Below bound value)
    (small : bound ≤ 900) : value.isFinite = true := by
  rw [isFinite_iff]
  have most := Nat.mul_le_mul_right (2 ^ 52) (show bound + 1027 ≤ 1927 by omega)
  have inside := Nat.mod_le value.bits.toNat (2 ^ 63)
  unfold Below at below
  omega

/-- The nearest integer is at most one above the quotient. -/
theorem roundHalfEven_le (numerator denominator : Nat) :
    roundHalfEven numerator denominator ≤ numerator / denominator + 1 := by
  unfold roundHalfEven
  simp only
  split
  · omega
  · split
    · omega
    · omega

/-- A ratio scaled down by enough powers of two is small. -/
theorem scaleByTwo_lt {numerator denominator room : Nat} {power : Int}
    (positive : 0 < denominator)
    (scaled : (numerator.log2 : Int) + 1 ≤ room + denominator.log2 + power) :
    (scaleByTwo numerator denominator power).1 / (scaleByTwo numerator denominator power).2 <
      2 ^ room := by
  have front : numerator * 2 ^ (-power).toNat < 2 ^ (numerator.log2 + 1) * 2 ^ (-power).toNat :=
    Nat.mul_lt_mul_of_pos_right Nat.lt_log2_self (Nat.two_pow_pos _)
  have middle : 2 ^ (numerator.log2 + 1) * 2 ^ (-power).toNat ≤
      2 ^ room * (2 ^ denominator.log2 * 2 ^ power.toNat) := by
    rw [← Nat.pow_add, ← Nat.pow_add, ← Nat.pow_add]
    exact Nat.pow_le_pow_right (by decide) (by omega)
  have back : 2 ^ room * (2 ^ denominator.log2 * 2 ^ power.toNat) ≤
      2 ^ room * (denominator * 2 ^ power.toNat) :=
    Nat.mul_le_mul_left _ (Nat.mul_le_mul_right _ (Nat.log2_self_le (by omega)))
  show numerator * 2 ^ (-power).toNat / (denominator * 2 ^ power.toNat) < 2 ^ room
  rw [Nat.div_lt_iff_lt_mul (Nat.mul_pos positive (Nat.two_pow_pos _))]
  omega

theorem round_lt {numerator denominator bound : Nat} (positive : 0 < denominator)
    (bounded : numerator < denominator * 2 ^ bound) :
    double.round numerator denominator < (bound + 1027) * 2 ^ 52 := by
  unfold Format.round
  by_cases zero : numerator = 0
  · rw [if_pos zero]
    exact Nat.mul_pos (by omega) (Nat.two_pow_pos _)
  have least : double.leastPower = -1074 := by decide
  have log : numerator.log2 ≤ denominator.log2 + bound := by
    have wide : denominator * 2 ^ bound < 2 ^ (denominator.log2 + 1) * 2 ^ bound :=
      Nat.mul_lt_mul_of_pos_right Nat.lt_log2_self (Nat.two_pow_pos _)
    rw [← Nat.pow_add] at wide
    have below := (Nat.log2_lt zero).mpr (Nat.lt_trans bounded wide)
    omega
  -- Whatever power is chosen, the mantissa has few bits and the exponent is bounded.
  have chosen (power : Int) (above : (numerator.log2 : Int) - denominator.log2 - 53 ≤ power)
      (below : power ≤ bound - 52) :
      (power - double.leastPower).toNat * 2 ^ 52 +
          roundHalfEven (scaleByTwo numerator denominator power).1
            (scaleByTwo numerator denominator power).2 <
        (bound + 1027) * 2 ^ 52 := by
    have mantissa := roundHalfEven_le (scaleByTwo numerator denominator power).1
      (scaleByTwo numerator denominator power).2
    have few : (scaleByTwo numerator denominator power).1 /
        (scaleByTwo numerator denominator power).2 < 2 ^ 54 := scaleByTwo_lt positive (by omega)
    have exponent := Nat.mul_le_mul_right (2 ^ 52)
      (show (power - double.leastPower).toNat ≤ bound + 1022 by omega)
    omega
  rw [if_neg zero]
  have fraction : double.fraction = 52 := rfl
  refine Nat.lt_of_le_of_lt (Nat.min_le_left _ _) (chosen _ ?_ ?_)
  · rw [fraction]
    split <;> omega
  · rw [fraction]
    split <;> omega

/-- A bounded ratio rounds to a double with a bounded exponent. -/
theorem below_ofRatio {numerator denominator bound : Nat} (positive : 0 < denominator)
    (bounded : numerator < denominator * 2 ^ bound) :
    Below bound (Double.ofRatio false numerator denominator) := by
  have round := round_lt positive bounded
  have word := Nat.mod_le (double.round numerator denominator) (2 ^ 64)
  unfold Below Double.ofRatio
  rw [if_neg (by decide), Nat.zero_add, UInt64.toNat_ofNat']
  omega

theorem Below.datum {bound : Nat} {value : Double} (below : Below bound value)
    (small : bound ≤ 900) :
    ∃ negative mantissa power, value.datum = .finite negative mantissa power ∧ mantissa < 2 ^ 53 ∧
      (power ≤ -1074 ∨ power ≤ bound - 49) := by
  have field : value.bits.toNat / twoTo double.fraction % twoTo double.exponent =
    value.bits.toNat / 4503599627370496 % 2048 := rfl
  have fraction : value.bits.toNat % twoTo double.fraction < 2 ^ 52 := Nat.mod_lt _ (by decide)
  have least : double.leastPower = -1074 := by decide
  have bounded : value.bits.toNat / 4503599627370496 < bound + 1027 :=
    (Nat.div_lt_iff_lt_mul (by decide)).mpr below
  have top : ¬ value.bits.toNat / 4503599627370496 % 2048 = 2047 := by omega
  unfold Double.datum Format.datum
  simp only [field, show double.topField = 2047 from rfl, if_neg top]
  by_cases bottom : value.bits.toNat / 4503599627370496 % 2048 = 0
  · rw [if_pos bottom]
    exact ⟨_, _, _, rfl, by omega, .inl (by omega)⟩
  · rw [if_neg bottom]
    refine ⟨_, _, _, rfl, ?_, .inr (by omega)⟩
    show 2 ^ 52 + _ < 2 ^ 53
    omega

/-- A double with a bounded exponent is a bounded ratio. -/
theorem Below.magnitude {bound : Nat} {value : Double} (below : Below bound value)
    (least : 49 ≤ bound) (small : bound ≤ 900) :
    ∃ numerator denominator, value.magnitude? = some (numerator, denominator) ∧ 0 < denominator ∧
      numerator < denominator * 2 ^ (bound + 4) := by
  obtain ⟨negative, mantissa, power, found, few, upto⟩ := below.datum small
  refine ⟨mantissa * 2 ^ power.toNat, 2 ^ (-power).toNat, ?_, Nat.two_pow_pos _, ?_⟩
  · unfold Double.magnitude?
    rw [found]
    simp [scaleByTwo, twoTo]
  · calc mantissa * 2 ^ power.toNat < 2 ^ 53 * 2 ^ power.toNat :=
          Nat.mul_lt_mul_of_pos_right few (Nat.two_pow_pos _)
      _ = 2 ^ (53 + power.toNat) := (Nat.pow_add _ _ _).symm
      _ ≤ 2 ^ ((-power).toNat + (bound + 4)) := Nat.pow_le_pow_right (by decide) (by omega)
      _ = 2 ^ (-power).toNat * 2 ^ (bound + 4) := Nat.pow_add _ _ _

/-- A divisor that is not small, if it is finite at all. -/
def IsDivisor (value : Double) : Prop :=
  ∀ numerator denominator, value.magnitude? = some (numerator, denominator) →
    0 < numerator ∧ denominator ≤ 4 * numerator

theorem Below.dividedBy {bound : Nat} {value divisor : Double} (below : Below bound value)
    (least : 49 ≤ bound) (small : bound ≤ 900) (large : IsDivisor divisor) :
    Below (bound + 6) (value.dividedBy divisor) := by
  obtain ⟨n, d, found, positive, bounded⟩ := below.magnitude least small
  unfold Double.dividedBy
  rw [found]
  cases divides : divisor.magnitude? with
  | none => exact Nat.mul_pos (by omega) (Nat.two_pow_pos _)
  | some ratio =>
    obtain ⟨n', d'⟩ := ratio
    obtain ⟨positive', order⟩ := large n' d' divides
    simp only
    rw [if_neg (by omega)]
    refine below_ofRatio (Nat.mul_pos positive positive') ?_
    calc n * d' ≤ n * (4 * n') := Nat.mul_le_mul_left _ order
      _ < d * 2 ^ (bound + 4) * (4 * n') := Nat.mul_lt_mul_of_pos_right bounded (by omega)
      _ = d * n' * 2 ^ (bound + 6) := by
        rw [show 2 ^ (bound + 6) = 2 ^ (bound + 4) * 4 from Nat.pow_add _ (bound + 4) 2]
        ac_rfl

/-- A whole number rounds to a double that is not small. -/
theorem le_round {number : Nat} (positive : 0 < number) :
    1021 * 2 ^ 52 ≤ double.round number 1 := by
  unfold Format.round
  have least : double.leastPower = -1074 := by decide
  have fraction : double.fraction = 52 := rfl
  have one : Nat.log2 1 = 0 := by decide
  have chosen (power : Int) (above : -53 ≤ power) (mantissa : Nat) :
      1021 * 2 ^ 52 ≤ (power - double.leastPower).toNat * twoTo 52 + mantissa := by
    have exponent := Nat.mul_le_mul_right (2 ^ 52)
      (show 1021 ≤ (power - double.leastPower).toNat by omega)
    exact Nat.le_trans exponent (Nat.le_add_right _ mantissa)
  rw [if_neg (by omega)]
  simp only [fraction, one]
  refine Nat.le_min.mpr ⟨chosen _ ?_ _, by decide⟩
  split <;> omega

theorem isDivisor_ofRatio {number : Nat} (positive : 0 < number) :
    IsDivisor (.ofRatio false number 1) := by
  intro numerator denominator found
  have large := le_round positive
  have word : double.round number 1 ≤ 2047 * 2 ^ 52 := by
    unfold Format.round
    split
    · decide
    · exact Nat.min_le_right _ _
  have bits : (Double.ofRatio false number 1).bits.toNat = double.round number 1 := by
    unfold Double.ofRatio
    rw [if_neg (by decide), Nat.zero_add, UInt64.toNat_ofNat', Nat.mod_eq_of_lt (by omega)]
  rw [← bits] at large word
  generalize Double.ofRatio false number 1 = value at found large word
  have field : value.bits.toNat / twoTo double.fraction % twoTo double.exponent =
    value.bits.toNat / 4503599627370496 % 2048 := rfl
  have least : double.leastPower = -1074 := by decide
  unfold Double.magnitude? Double.datum Format.datum at found
  simp only [field, show double.topField = 2047 from rfl] at found
  by_cases top : value.bits.toNat / 4503599627370496 % 2048 = 2047
  · rw [if_pos top] at found
    split at found
    · rename_i finite
      split at finite <;> cases finite
    · cases found
  · rw [if_neg top, if_neg (by omega)] at found
    cases found
    refine ⟨Nat.mul_pos (Nat.add_pos_left (Nat.two_pow_pos _) _) (Nat.two_pow_pos _), ?_⟩
    generalize field : (value.bits.toNat / 4503599627370496 % 2048 - 1 : Nat) = exponent
    show 1 * 2 ^ _ ≤ 4 * ((2 ^ 52 + _) * 2 ^ _)
    calc 1 * 2 ^ (-(double.leastPower + exponent)).toNat ≤ 2 ^ 54 := by
          rw [Nat.one_mul]
          exact Nat.pow_le_pow_right (by decide) (by omega)
      _ = 4 * (2 ^ 52 * 1) := by decide
      _ ≤ _ := Nat.mul_le_mul_left 4
          (Nat.mul_le_mul (Nat.le_add_right _ _) (Nat.one_le_two_pow))

end Sbe.Number

namespace Sbe.Json

open Sbe.Number

theorem powerOfTen_isDivisor (exponent : Nat) : IsDivisor (powerOfTen exponent) :=
  isDivisor_ofRatio (Nat.pow_pos (by decide))

theorem below_divideByTen {value : Double} {bound : Nat} (below : Below bound value)
    (least : 49 ≤ bound) (fuel exponent : Nat) (small : bound + 6 * fuel ≤ 900) :
    Below (bound + 6 * fuel) (divideByTen fuel value exponent) := by
  induction fuel generalizing value bound exponent with
  | zero => exact below
  | succ fuel ih =>
    unfold divideByTen
    split
    · exact (below.dividedBy least (by omega) (powerOfTen_isDivisor exponent)).mono (by omega)
    · have divided := below.dividedBy least (by omega) (powerOfTen_isDivisor 308)
      exact (ih divided (by omega) (exponent - 308) (by omega)).mono (by omega)

theorem isFinite_of_scaleWord {word : Nat} {exponent : Int} {value : Double}
    (small : word < UInt64.size) (scaled : scaleWord word exponent = some value) :
    value.isFinite = true := by
  have below : Below 64 (.ofRatio false word 1) :=
    below_ofRatio (by decide) (by rw [Nat.one_mul]; exact small)
  unfold scaleWord at scaled
  simp only at scaled
  split at scaled
  · cases scaled
    exact below.isFinite (by decide)
  · split at scaled
    · cases scaled
      exact (below_divideByTen below (by decide) 4 _ (by decide)).isFinite (by decide)
    · split at scaled
      · split at scaled
        · rename_i finite
          cases scaled
          exact finite
        · cases scaled
      · cases scaled

theorem absorb_lt {word : Nat} (small : word < UInt64.size) (taken : Nat) (digits : List Char) :
    (absorb word taken digits).1 < UInt64.size := by
  induction digits generalizing word taken with
  | nil => exact small
  | cons digit rest ih =>
    unfold absorb
    simp only
    split
    · rename_i next
      exact ih next (taken + 1)
    · exact small

theorem isFinite_of_size? {numeral : Numeral} {value : Double}
    (found : numeral.size? = some value) : value.isFinite = true := by
  unfold Numeral.size? at found
  have whole := absorb_lt (by decide : 0 < UInt64.size) 0 numeral.whole
  have small := absorb_lt whole 0 (numeral.fraction.getD [])
  simp only at found
  split at found
  · exact isFinite_of_scaleWord small found
  · split at found
    · split at found
      · cases found
      · cases found
        decide
    · exact isFinite_of_scaleWord small found

end Sbe.Json
