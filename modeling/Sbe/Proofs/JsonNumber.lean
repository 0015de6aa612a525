import Mathlib.Algebra.Group.Int.Defs
import Sbe.Json.Number
import Sbe.Proofs.JsonText
import Sbe.Proofs.Rounding

/-!
**Numbers in JSON.**

The numerals that are written for integers and doubles belong to the grammar. An integer of 64 bits,
with or without a sign, is read back as itself; one that fits both kinds is read as signed.

* `wellFormed_int`, `wellFormed_double`: the numerals that are written;
* `number?_int`, `number?_uint`: integers are read back;
* `number?_cases`: what a numeral can stand for.
-/

namespace Sbe.Json

open Sbe.Number

/-! ### Numerals of integers and doubles -/

theorem toDigits_start {number : Nat} (positive : 0 < number) :
    ∃ c rest, Nat.toDigits 10 number = c :: rest ∧ c ≠ '0' := by
  induction number using Nat.strongRecOn with
  | ind number ih =>
    by_cases small : number < 10
    · refine ⟨_, [], Nat.toDigits_of_lt_base small, ?_⟩
      have nonzero : ∀ digit < 10, 0 < digit → Nat.digitChar digit ≠ '0' := by decide
      exact nonzero number small positive
    · obtain ⟨c, rest, starts, nonzero⟩ := ih (number / 10) (by omega) (by omega)
      refine ⟨c, rest ++ [Nat.digitChar (number % 10)], ?_, nonzero⟩
      rw [Nat.toDigits_of_base_le (by decide) (by omega), starts]
      rfl

theorem toDigits_noLeadingZero (number : Nat) :
    ∀ rest, Nat.toDigits 10 number = '0' :: rest → rest = [] := by
  intro rest same
  rcases Nat.eq_zero_or_pos number with rfl | positive
  · rw [Nat.toDigits_zero] at same
    exact (List.cons.inj same).2.symm
  · obtain ⟨c, later, starts, nonzero⟩ := toDigits_start positive
    rw [starts] at same
    exact absurd (List.cons.inj same).1 nonzero

theorem wellFormed_int (value : Int) : (Value.int value).WellFormed := by
  refine .number ⟨?_, ?_, ?_⟩
  · rw [toList_toString]
    exact isDigits_toDigits _
  · intro rest same
    rw [toList_toString] at same
    exact toDigits_noLeadingZero _ rest same
  · intro digits absent
    cases absent

theorem isDigit_of_mem_replicate {count : Nat} :
    ∀ c ∈ List.replicate count '0', c.isDigit = true := by
  intro c member
  rw [List.eq_of_mem_replicate member]
  decide

theorem wellFormed_ofDecimal (negative : Bool) (decimal : Decimal) :
    (Numeral.ofDecimal negative decimal).WellFormed := by
  have zero : IsDigits ['0'] := ⟨by simp, List.forall_mem_singleton.mpr (by decide)⟩
  have zeroOnly : ∀ rest, ['0'] = '0' :: rest → rest = [] :=
    fun _ same => (List.cons.inj same).2.symm
  unfold Numeral.ofDecimal
  simp only [toList_toString]
  have run := isDigits_toDigits decimal.digits
  by_cases none : decimal.digits = 0
  · rw [if_pos none]
    exact ⟨zero, zeroOnly, fun _ same => Option.some.inj same ▸ zero⟩
  · rw [if_neg none]
    obtain ⟨c, later, starts, nonzero⟩ := toDigits_start (Nat.pos_of_ne_zero none)
    rw [starts] at run ⊢
    have first : c.isDigit = true := run.2 c List.mem_cons_self
    have others : ∀ c ∈ later, c.isDigit = true :=
      fun c member => run.2 c (List.mem_cons_of_mem _ member)
    generalize decimal.exponent + ((c :: later).length : Int) - 1 = leading
    split
    · -- one digit in front of the point
      refine ⟨⟨by simp, by simpa using first⟩, ?_, ?_⟩
      · intro rest same
        exact (List.cons.inj same).2.symm
      · intro digits found
        split at found
        · cases found
        · rename_i several
          cases found
          exact ⟨by simpa using several, others⟩
    · split
      · -- nothing but a zero in front of the point
        refine ⟨zero, zeroOnly, ?_⟩
        intro digits found
        cases found
        refine ⟨by simp, fun digit member => ?_⟩
        rcases List.mem_append.mp member with padding | written
        · exact isDigit_of_mem_replicate digit padding
        · exact run.2 digit written
      · -- the point somewhere behind the first digit
        rename_i positive
        have one : (leading + 1).toNat = leading.toNat + 1 := by omega
        rw [one, List.take_succ_cons, List.cons_append, List.drop_succ_cons]
        refine ⟨⟨by simp, ?_⟩, ?_, ?_⟩
        · intro digit member
          rcases List.mem_cons.mp member with rfl | member
          · exact first
          · rcases List.mem_append.mp member with written | padding
            · exact others digit (List.mem_of_mem_take written)
            · exact isDigit_of_mem_replicate digit padding
        · intro rest same
          exact absurd (List.cons.inj same).1 nonzero
        · intro digits found
          cases found
          split
          · exact zero
          · rename_i some
            refine ⟨by simpa using some, fun digit member => ?_⟩
            exact others digit (List.mem_of_mem_drop member)

theorem wellFormed_double (value : Double) : (Value.double value).WellFormed := by
  unfold Value.double
  split
  · exact .number (wellFormed_ofDecimal _ _)
  · exact .null

/-! ### Reading integers -/

theorem number?_negative {size : Nat} (positive : 0 < size) (bound : size ≤ Numeral.signedSize) :
    (⟨true, Nat.toDigits 10 size, none, none⟩ : Numeral).number? =
      some (.int (.ofInt (-(size : Int)))) := by
  have nonzero : ¬ (size = 0) := by omega
  have small : ¬ (Numeral.signedSize < size) := by omega
  simp [Numeral.number?, digitsValue_toDigits, nonzero, small]

theorem number?_signed {size : Nat} (bound : size < Numeral.signedSize) :
    (⟨false, Nat.toDigits 10 size, none, none⟩ : Numeral).number? = some (.int (.ofNat size)) := by
  simp [Numeral.number?, digitsValue_toDigits, bound]

theorem number?_unsigned {size : Nat} (least : Numeral.signedSize ≤ size)
    (bound : size < UInt64.size) :
    (⟨false, Nat.toDigits 10 size, none, none⟩ : Numeral).number? = some (.uint (.ofNat size)) := by
  have large : ¬ (size < Numeral.signedSize) := by omega
  simp [Numeral.number?, digitsValue_toDigits, large, bound]

/-- The numeral of an integer. -/
def intNumeral (value : Int) : Numeral :=
  ⟨decide (value < 0), (toString value.natAbs).toList, none, none⟩

theorem int_eq (value : Int) : Value.int value = .number (intNumeral value) := rfl

theorem number?_int {value : Int} (least : -2 ^ 63 ≤ value) (bound : value < 2 ^ 63) :
    (intNumeral value).number? = some (.int (.ofInt value)) := by
  rw [intNumeral, toList_toString]
  by_cases negative : value < 0
  · rw [decide_eq_true negative, number?_negative (by omega) (by rw [Numeral.signedSize]; omega),
      show -(value.natAbs : Int) = value by omega]
  · rw [decide_eq_false negative, number?_signed (by rw [Numeral.signedSize]; omega),
      ← Int64.ofInt_eq_ofNat, show (value.natAbs : Int) = value by omega]

theorem number?_uint (value : UInt64) (least : 2 ^ 63 ≤ value.toNat) :
    (intNumeral value.toNat).number? = some (.uint value) := by
  have bound := value.toNat_lt
  rw [intNumeral, toList_toString, decide_eq_false (by omega), Int.natAbs_natCast,
    number?_unsigned (by rw [Numeral.signedSize]; omega) bound, UInt64.ofNat_toNat]

/-- An integer of 64 bits, with or without a sign, is read back. -/
theorem int?_int {value : Int} (least : -2 ^ 63 ≤ value) (bound : value < 2 ^ 64) :
    (intNumeral value).int? = some value := by
  unfold Numeral.int?
  by_cases signed : value < 2 ^ 63
  · simp only [number?_int least signed, Int64.toInt_ofInt_of_le least signed]
  · have small : value.toNat < UInt64.size := by
      show value.toNat < 18446744073709551616
      omega
    have whole : ((UInt64.ofNat value.toNat).toNat : Int) = value := by
      rw [UInt64.toNat_ofNat_of_lt' small]
      omega
    have read := number?_uint (.ofNat value.toNat) (by omega)
    rw [whole] at read
    simp only [read, whole]

/-! ### What is read -/

/-- A numeral stands for a signed integer, for an unsigned one that is too large for a signed one,
or for its size as a double. -/
theorem number?_cases {numeral : Numeral} {number : Number}
    (found : numeral.number? = some number) :
    (∃ value, number = .int value) ∨
      (∃ value : UInt64, number = .uint value ∧ 2 ^ 63 ≤ value.toNat) ∨
      (∃ size, numeral.size? = some size ∧
        number = .double (if numeral.negative then size.neg else size)) := by
  have double (other : numeral.size?.map (fun size =>
      Number.double (if numeral.negative then size.neg else size)) = some number) :
      ∃ size, numeral.size? = some size ∧
        number = .double (if numeral.negative then size.neg else size) := by
    obtain ⟨size, sized, made⟩ := Option.map_eq_some_iff.mp other
    exact ⟨size, sized, made.symm⟩
  unfold Numeral.number? at found
  generalize numeral.size?.map _ = other at found double
  simp only at found
  split at found
  · exact .inr (.inr (double found))
  · split at found
    · split at found
      · exact .inr (.inr (double found))
      · exact .inl ⟨_, (Option.some.inj found).symm⟩
    · split at found
      · exact .inl ⟨_, (Option.some.inj found).symm⟩
      · split at found
        · rename_i large small
          refine .inr (.inl ⟨_, (Option.some.inj found).symm, ?_⟩)
          rw [UInt64.toNat_ofNat_of_lt' small]
          exact Nat.le_of_not_lt large
        · exact .inr (.inr (double found))

theorem le_of_number?_uint {numeral : Numeral} {value : UInt64}
    (found : numeral.number? = some (.uint value)) : 2 ^ 63 ≤ value.toNat := by
  rcases number?_cases found with ⟨_, kind⟩ | ⟨_, kind, least⟩ | ⟨_, _, kind⟩
  · cases kind
  · cases kind
    exact least
  · cases kind

/-- A numeral never stands for an infinite double or for what is not a number. -/
theorem isFinite_of_number? {numeral : Numeral} {value : Double}
    (found : numeral.number? = some (.double value)) : value.isFinite = true := by
  rcases number?_cases found with ⟨_, kind⟩ | ⟨_, kind, _⟩ | ⟨size, sized, kind⟩
  · cases kind
  · cases kind
  · have finite := isFinite_of_size? sized
    cases kind
    split
    · exact isFinite_neg finite
    · exact finite

end Sbe.Json
