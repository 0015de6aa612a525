import Sbe.Proofs.SchemaJson

/-!
**The two kinds of integers.**

An integer that fits both kinds can be held as signed or as unsigned. Everything that reads a scalar
reads the same from both; only the test whether two scalars are the same tells them apart.

* `Scalar.signed`, `Token.signed`, `Schema.signed`: every integer in the signed kind where it fits;
* `Scalar.same_signed_iff`: when the kind decides whether two scalars are the same;
* `Schema.normalize_eq_signed`: the normal form of a schema whose doubles are finite.
-/

namespace Sbe

open Sbe.Number

/-! ### Scalars -/

namespace Scalar

/-- A scalar in the signed kind where it fits. -/
def signed : Scalar → Scalar
  | .uint value => if value.toNat < 2 ^ 63 then .int (.ofNat value.toNat) else .uint value
  | .int value => .int value
  | .float value => .float value
  | .text value => .text value

/-- Whether two scalars are one number in two kinds. -/
def clashes : Scalar → Scalar → Bool
  | .int left, .uint right => left.toInt = right.toNat
  | .uint left, .int right => right.toInt = left.toNat
  | _, _ => false

/-- A scalar stays as it is, or is a number in the other kind. -/
theorem signed_cases (scalar : Scalar) :
    scalar.signed = scalar ∨
    ∃ value number, scalar = .uint value ∧ scalar.signed = .int number ∧
      number.toInt = value.toNat := by
  cases scalar with
  | uint value =>
    by_cases small : value.toNat < 2 ^ 63
    · exact .inr ⟨value, .ofNat value.toNat, rfl, if_pos small, Int64.toInt_ofNat_of_lt small⟩
    · exact .inl (if_neg small)
  | int value => exact .inl rfl
  | float value => exact .inl rfl
  | text value => exact .inl rfl

theorem toInt?_signed (scalar : Scalar) : scalar.signed.toInt? = scalar.toInt? := by
  rcases scalar.signed_cases with same | ⟨value, number, rfl, same, equal⟩
  · rw [same]
  · rw [same, toInt?, toInt?, equal]

theorem toDouble?_signed (scalar : Scalar) : scalar.signed.toDouble? = scalar.toDouble? := by
  rcases scalar.signed_cases with same | ⟨value, number, rfl, same, equal⟩
  · rw [same]
  · rw [same, toDouble?, toDouble?, equal]

theorem toText?_signed (scalar : Scalar) : scalar.signed.toText? = scalar.toText? := by
  rcases scalar.signed_cases with same | ⟨value, number, rfl, same, _⟩
  · rw [same]
  · rw [same]
    rfl

theorem shown_signed (scalar : Scalar) : scalar.signed.shown = scalar.shown := by
  rcases scalar.signed_cases with same | ⟨value, number, rfl, same, equal⟩
  · rw [same]
  · rw [same, shown, shown, equal]
    rfl

theorem eq_ofNat_iff {value : UInt64} (small : value.toNat < 2 ^ 63) (number : Int64) :
    number = .ofNat value.toNat ↔ number.toInt = value.toNat := by
  rw [← Int64.toInt_inj, Int64.toInt_ofNat_of_lt small]

theorem signed_of_lt {value : UInt64} (small : value.toNat < 2 ^ 63) :
    (uint value).signed = .int (.ofNat value.toNat) := if_pos small

theorem signed_of_not_lt {value : UInt64} (large : ¬ value.toNat < 2 ^ 63) :
    (uint value).signed = .uint value := if_neg large

theorem same_signed_int_uint (number : Int64) (value : UInt64) :
    (int number).same (uint value).signed = decide (number.toInt = value.toNat) := by
  by_cases small : value.toNat < 2 ^ 63
  · rw [signed_of_lt small]
    show (number == .ofNat value.toNat) = _
    rw [Bool.eq_iff_iff, beq_iff_eq, decide_eq_true_iff, eq_ofNat_iff small]
  · have bound := number.toInt_lt
    rw [signed_of_not_lt small]
    exact (decide_eq_false (by omega)).symm

theorem same_signed_uint_int (value : UInt64) (number : Int64) :
    (uint value).signed.same (int number) = decide (number.toInt = value.toNat) := by
  by_cases small : value.toNat < 2 ^ 63
  · rw [signed_of_lt small]
    show (Int64.ofNat value.toNat == number) = _
    rw [Bool.eq_iff_iff, beq_iff_eq, decide_eq_true_iff, eq_comm, eq_ofNat_iff small]
  · have bound := number.toInt_lt
    rw [signed_of_not_lt small]
    exact (decide_eq_false (by omega)).symm

theorem same_signed_uint_uint (left right : UInt64) :
    (uint left).signed.same (uint right).signed = (left == right) := by
  by_cases small : left.toNat < 2 ^ 63
  · rw [signed_of_lt small, same_signed_int_uint, Int64.toInt_ofNat_of_lt small, Bool.eq_iff_iff,
      decide_eq_true_iff, beq_iff_eq, Int.ofNat_inj, UInt64.toNat_inj]
  · rw [signed_of_not_lt small]
    by_cases fits : right.toNat < 2 ^ 63
    · have apart : left ≠ right := by
        rintro rfl
        exact small fits
      rw [signed_of_lt fits, beq_eq_false_iff_ne.mpr apart]
      rfl
    · rw [signed_of_not_lt fits]
      rfl

/-- The kind decides whether two scalars are the same exactly where they are one number in two
kinds. -/
theorem same_signed_iff (left right : Scalar) :
    left.signed.same right.signed = left.same right ↔ left.clashes right = false := by
  cases left with
  | int left =>
    cases right with
    | uint right =>
      show (int left).same (uint right).signed = false ↔ decide (left.toInt = right.toNat) = false
      rw [same_signed_int_uint]
    | _ => exact iff_of_true rfl rfl
  | uint left =>
    cases right with
    | int right =>
      show (uint left).signed.same (int right) = false ↔ decide (right.toInt = left.toNat) = false
      rw [same_signed_uint_int]
    | uint right => exact iff_of_true (same_signed_uint_uint left right) rfl
    | _ =>
      refine iff_of_true ?_ rfl
      rcases (uint left).signed_cases with kept | ⟨_, _, _, moved, _⟩
      · rw [kept]
        rfl
      · rw [moved]
        rfl
  | _ =>
    cases right with
    | uint right =>
      refine iff_of_true ?_ rfl
      rcases (uint right).signed_cases with kept | ⟨_, _, _, moved, _⟩
      · rw [kept]
        rfl
      · rw [moved]
        rfl
    | _ => exact iff_of_true rfl rfl

end Scalar

/-! ### Tokens -/

/-- An encoding with its integers in the signed kind where they fit. -/
def Encoding.signed (encoding : Encoding) : Encoding :=
  { encoding with
    least := encoding.least.map Scalar.signed
    greatest := encoding.greatest.map Scalar.signed
    null := encoding.null.map Scalar.signed
    constant := encoding.constant.map Scalar.signed }

/-- A token with its integers in the signed kind where they fit. -/
def Token.signed (token : Token) : Token := { token with encoding := token.encoding.signed }

/-- A schema with its integers in the signed kind where they fit. -/
def Schema.signed (schema : Schema) : Schema :=
  { schema with
    header := schema.header.map Token.signed
    types := schema.types.map (List.map Token.signed)
    messages := schema.messages.map (List.map Token.signed) }

@[simp] theorem Token.signal_signed (token : Token) : token.signed.signal = token.signal := rfl

@[simp] theorem Token.encoding_signed (token : Token) :
    token.signed.encoding = token.encoding.signed :=
  rfl

@[simp] theorem Encoding.constant_signed (encoding : Encoding) :
    encoding.signed.constant = encoding.constant.map .signed := rfl

/-! ### Normal forms of finite schemas -/

/-- Every double of a schema is finite. -/
def Schema.FloatsFinite (schema : Schema) : Prop :=
  ∀ value, .float value ∈ schema.scalars → value.isFinite = true

theorem Scalar.normalize_eq_signed {scalar : Scalar}
    (finite : ∀ value, scalar = .float value → value.isFinite = true) :
    scalar.normalize = some scalar.signed := by
  cases scalar with
  | float value => exact if_pos (finite value rfl)
  | uint value => rfl
  | int value => rfl
  | text value => rfl

theorem Encoding.normalize_eq_signed {encoding : Encoding}
    (finite : ∀ value, .float value ∈ encoding.scalars → value.isFinite = true) :
    encoding.normalize = encoding.signed := by
  have each (field : Option Scalar)
      (known : field ∈ [encoding.least, encoding.greatest, encoding.null, encoding.constant]) :
      field.bind Scalar.normalize = field.map Scalar.signed := by
    cases field with
    | none => rfl
    | some scalar =>
      refine Scalar.normalize_eq_signed fun value same => finite value ?_
      exact List.mem_filterMap.mpr ⟨_, known, congrArg some same⟩
  simp only [normalize, signed, each encoding.least (by simp), each encoding.greatest (by simp),
    each encoding.null (by simp), each encoding.constant (by simp)]

theorem Schema.normalize_eq_signed {schema : Schema} (finite : schema.FloatsFinite) :
    schema.normalize = schema.signed := by
  have token (token : Token) (member : token ∈ schema.tokens) : token.normalize = token.signed := by
    have same : token.encoding.normalize = token.encoding.signed :=
      Encoding.normalize_eq_signed fun value inside =>
        finite value (List.mem_flatMap.mpr ⟨token, member, inside⟩)
    rw [Token.normalize, same]
    rfl
  have header : schema.header.map Token.normalize = schema.header.map Token.signed :=
    List.map_congr_left fun one member =>
      token one (List.mem_append_left _ (List.mem_append_left _ member))
  have types : schema.types.map (List.map Token.normalize) =
      schema.types.map (List.map Token.signed) :=
    List.map_congr_left fun stream inside => List.map_congr_left fun one member =>
      token one (List.mem_append_left _
          (List.mem_append_right _ (List.mem_flatten.mpr ⟨stream, inside, member⟩)))
  have messages : schema.messages.map (List.map Token.normalize) =
      schema.messages.map (List.map Token.signed) :=
    List.map_congr_left fun stream inside => List.map_congr_left fun one member =>
      token one (List.mem_append_right _ (List.mem_flatten.mpr ⟨stream, inside, member⟩))
  rw [normalize, header, types, messages]
  rfl

end Sbe
