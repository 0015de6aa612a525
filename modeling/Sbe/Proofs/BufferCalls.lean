import Mathlib.Data.List.Pairwise
import Sbe.Codec.Error
import Sbe.Codec.Pattern
import Sbe.Proofs.Wire

/-!
**Reading gives what was written last.**

A buffer is changed by calls that write a number of some primitive type in a byte order, write
bytes, or fill a range with one byte. A call that fits replaces the bytes of its range and no
others, so everything about a sequence of calls is said byte by byte: which calls cover a position,
and which of them came last.

* `Primitive.value_pattern`: the bit pattern of a number of a primitive gives the number back,
  signed or not;
* `perform_eq`, `getElem?_write`: one call;
* `performAll_eq`, `getElem?_writeAll`, `slice_writeAll`: a sequence of calls;
* `writeAll_perm`: calls on ranges that do not meet, in any order;
* `performAll_stores`: the laws together.
-/

namespace Sbe

/-! ### Numbers and their bit patterns -/

namespace Primitive

/-- The least and the greatest number that is written as a primitive: those of its range for an
integer, and the bit patterns for a floating point number. -/
def extent (primitive : Primitive) : Int × Int := primitive.range?.getD (0, primitive.patterns - 1)

/-- Whether a number can be written as a primitive. -/
def Admits (primitive : Primitive) (number : Int) : Prop :=
  primitive.extent.1 ≤ number ∧ number ≤ primitive.extent.2

instance (primitive : Primitive) (number : Int) : Decidable (primitive.Admits number) :=
  inferInstanceAs (Decidable (_ ∧ _))

/-- The bit pattern of a number is one of the primitive. -/
theorem pattern_lt_patterns (primitive : Primitive) (number : Int) :
    primitive.pattern number < primitive.patterns := by
  have some : 0 < primitive.patterns := Nat.pow_pos (by decide)
  have least := Int.emod_nonneg number (show (primitive.patterns : Int) ≠ 0 by omega)
  have greatest := Int.emod_lt_of_pos number (show (0 : Int) < primitive.patterns by omega)
  unfold pattern
  omega

/-- Signed primitives have half of their patterns for negative numbers. -/
theorem extent_eq (primitive : Primitive) :
    primitive.extent =
      if primitive.isSigned
        then (-(primitive.patterns / 2 : Int), (primitive.patterns / 2 : Int) - 1)
        else (0, primitive.patterns - 1) := by
  cases primitive <;> rfl

theorem two_dvd_patterns (primitive : Primitive) : 2 ∣ primitive.patterns := by
  cases primitive <;> decide

/-- A number is read back from its bit pattern. -/
theorem value_pattern {primitive : Primitive} {number : Int} (admits : primitive.Admits number) :
    primitive.value (primitive.pattern number) = number := by
  have even := primitive.two_dvd_patterns
  unfold Admits at admits
  rw [extent_eq] at admits
  unfold value pattern
  by_cases negative : number < 0
  · have signed : primitive.isSigned = true := by
      by_contra unsigned
      rw [if_neg unsigned] at admits
      omega
    rw [if_pos signed] at admits
    -- Two's complement: a negative number stands for itself plus the number of patterns.
    have wrapped : number % (primitive.patterns : Int) = number + primitive.patterns := by
      rw [← Int.add_emod_right, Int.emod_eq_of_lt (by omega) (by omega)]
    rw [wrapped, if_pos ⟨signed, by omega⟩]
    omega
  · have unwrapped : number % (primitive.patterns : Int) = number := by
      refine Int.emod_eq_of_lt (by omega) ?_
      split at admits <;> omega
    rw [unwrapped, if_neg]
    · omega
    · rintro ⟨signed, upper⟩
      rw [if_pos signed] at admits
      omega

end Primitive

/-! ### Calls -/

namespace Buffer

/-- A call that changes a buffer: a number written as a primitive in a byte order, bytes written
from an index on, or a range filled with one byte. -/
inductive Call where
  | number (primitive : Primitive) (index : Nat) (value : Int) (order : ByteOrder)
      (admits : primitive.Admits value)
  | bytes (index : Nat) (source : List UInt8)
  | fill (index length : Nat) (value : UInt8)

namespace Call

/-- The first position of the range of a call. -/
def index : Call → Nat
  | number _ index _ _ _ => index
  | bytes index _ => index
  | fill index _ _ => index

/-- The number of bytes of the range of a call. -/
def length : Call → Nat
  | number primitive _ _ _ _ => primitive.size
  | bytes _ source => source.length
  | fill _ length _ => length

/-- Whether the range of a call lies inside a buffer. -/
def FitsIn (call : Call) (buffer : Buffer) : Prop := call.index + call.length ≤ buffer.capacity

instance (call : Call) (buffer : Buffer) : Decidable (call.FitsIn buffer) :=
  inferInstanceAs (Decidable (_ ≤ _))

/-- Whether a position lies in the range of a call. -/
def Covers (call : Call) (position : Nat) : Prop :=
  call.index ≤ position ∧ position < call.index + call.length

instance (call : Call) (position : Nat) : Decidable (call.Covers position) :=
  inferInstanceAs (Decidable (_ ∧ _))

/-- Whether the ranges of two calls have no position in common. -/
def Apart (call other : Call) : Prop := ∀ position, ¬ (call.Covers position ∧ other.Covers position)

/-- Makes a call. -/
def perform (call : Call) (buffer : Buffer) : Outcome CodecError Buffer :=
  match call with
  | number primitive index value order _ =>
    buffer.putNumber primitive.size index (primitive.pattern value) order
  | bytes index source => buffer.putBytes index source
  | fill index length value => buffer.fill index length value

/-- Whether a buffer gives back what a call writes: the number, read as the same primitive in the
same byte order, or the bytes of the range. -/
def ReadsBack (call : Call) (buffer : Buffer) : Prop :=
  match call with
  | number primitive index value order _ =>
    (buffer.getNumber primitive.size index order : Outcome CodecError Nat).map primitive.value =
      .ok value
  | bytes index source =>
    (buffer.slice index source.length : Outcome CodecError (List UInt8)) = .ok source
  | fill index length value =>
    (buffer.slice index length : Outcome CodecError (List UInt8)) =
      .ok (List.replicate length value)

end Call

/-- Makes calls one after another. -/
def performAll (buffer : Buffer) (calls : List Call) : Outcome CodecError Buffer :=
  calls.foldlM (fun buffer call => call.perform buffer) buffer

/-! ### One call -/

namespace Call

/-- The bytes that a call writes. -/
def source : Call → List UInt8
  | number primitive _ value order _ => order.bytes primitive.size (primitive.pattern value)
  | bytes _ source => source
  | fill _ length value => List.replicate length value

@[simp] theorem length_source (call : Call) : call.source.length = call.length := by
  cases call with
  | number => exact ByteOrder.bytes_length _ _ _
  | bytes => rfl
  | fill => exact List.length_replicate

theorem Apart.symm {call other : Call} (apart : call.Apart other) : other.Apart call :=
  fun position covered => apart position covered.symm

/-- Ranges that have no position in common stand one after the other, or one of them is empty. -/
theorem Apart.cases {call other : Call} (apart : call.Apart other) :
    call.index + call.length ≤ other.index ∨ other.index + other.length ≤ call.index ∨
      call.length = 0 ∨ other.length = 0 := by
  have common := apart (max call.index other.index)
  unfold Covers at common
  omega

end Call

/-- The buffer with the bytes of a call in its range. -/
def write (buffer : Buffer) (call : Call) : Buffer := buffer.overwrite call.index call.source

@[simp] theorem capacity_write (buffer : Buffer) (call : Call) :
    (buffer.write call).capacity = buffer.capacity := capacity_overwrite _ _ _

@[simp] theorem fitsIn_write {buffer : Buffer} {call other : Call} :
    other.FitsIn (buffer.write call) ↔ other.FitsIn buffer := by
  rw [Call.FitsIn, Call.FitsIn, capacity_write]

/-- A call that fits writes its bytes. -/
theorem perform_eq {buffer : Buffer} {call : Call} (fits : call.FitsIn buffer) :
    call.perform buffer = .ok (buffer.write call) := by
  have inside : buffer.holds call.index call.length = true := by
    rw [holds, decide_eq_true_iff]
    exact fits
  cases call with
  | number primitive index value order admits =>
    refine if_pos ?_
    rw [ByteOrder.bytes_length]
    exact inside
  | bytes => exact if_pos inside
  | fill => exact if_pos inside

/-- The byte at a position is that of the call where it covers the position, and stays elsewhere. -/
theorem getElem?_write {buffer : Buffer} {call : Call} (fits : call.FitsIn buffer)
    (position : Nat) :
    (buffer.write call).toList[position]? =
      if call.Covers position then call.source[position - call.index]?
        else buffer.toList[position]? := by
  have size := call.length_source
  have capacity := buffer.length_toList
  unfold Call.FitsIn at fits
  rw [write, toList_overwrite _ _ _ (by omega), List.append_assoc, size]
  have before : (buffer.toList.take call.index).length = call.index := by
    rw [List.length_take]
    omega
  split
  · next covered =>
    obtain ⟨start, stop⟩ := covered
    rw [List.getElem?_append_right (by omega), before, List.getElem?_append_left (by omega)]
  · next outside =>
    unfold Call.Covers at outside
    by_cases early : position < call.index
    · rw [List.getElem?_append_left (by omega), List.getElem?_take_of_lt early]
    · rw [List.getElem?_append_right (by omega), before, List.getElem?_append_right (by omega),
        size, List.getElem?_drop,
        show call.index + call.length + (position - call.index - call.length) = position by omega]

/-- Calls on ranges that do not meet can be made in either order. -/
theorem write_comm (buffer : Buffer) {call other : Call} (apart : call.Apart other) :
    (buffer.write call).write other = (buffer.write other).write call := by
  have empty (call : Call) (none : call.length = 0) (buffer : Buffer) : buffer.write call =
      buffer := by
    rw [write, List.eq_nil_of_length_eq_zero (call.length_source.trans none)]
    rfl
  rcases apart.cases with before | behind | none | none
  · exact (overwrite_comm (by rwa [Call.length_source])).symm
  · exact overwrite_comm (by rwa [Call.length_source])
  · rw [empty call none, empty call none]
  · rw [empty other none, empty other none]

/-! ### Sequences of calls -/

/-- The buffer with the bytes of calls in their ranges, one call after another. -/
def writeAll (buffer : Buffer) (calls : List Call) : Buffer := calls.foldl write buffer

@[simp] theorem capacity_writeAll (buffer : Buffer) (calls : List Call) :
    (buffer.writeAll calls).capacity = buffer.capacity := by
  induction calls generalizing buffer with
  | nil => rfl
  | cons call rest ih => exact (ih (buffer.write call)).trans (capacity_write buffer call)

/-- Calls that fit all succeed. -/
theorem performAll_eq {buffer : Buffer} {calls : List Call}
    (fit : ∀ call ∈ calls, call.FitsIn buffer) :
    buffer.performAll calls = .ok (buffer.writeAll calls) := by
  induction calls generalizing buffer with
  | nil => rfl
  | cons call rest ih =>
    obtain ⟨first, later⟩ := List.forall_mem_cons.mp fit
    have after : ∀ other ∈ rest, other.FitsIn (buffer.write call) :=
      fun other member => fitsIn_write.mpr (later other member)
    rw [performAll, List.foldlM_cons, perform_eq first, Outcome.ok_bind]
    exact ih after

/-- A position that no call covers keeps its byte. -/
theorem getElem?_writeAll {buffer : Buffer} {calls : List Call}
    (fit : ∀ call ∈ calls, call.FitsIn buffer) {position : Nat}
    (free : ∀ call ∈ calls, ¬ call.Covers position) :
    (buffer.writeAll calls).toList[position]? = buffer.toList[position]? := by
  induction calls generalizing buffer with
  | nil => rfl
  | cons call rest ih =>
    obtain ⟨first, later⟩ := List.forall_mem_cons.mp fit
    obtain ⟨uncovered, others⟩ := List.forall_mem_cons.mp free
    have after : ∀ other ∈ rest, other.FitsIn (buffer.write call) :=
      fun other member => fitsIn_write.mpr (later other member)
    calc ((buffer.write call).writeAll rest).toList[position]?
      _ = (buffer.write call).toList[position]? := ih after others
      _ = buffer.toList[position]? := by rw [getElem?_write first, if_neg uncovered]

theorem writeAll_append (buffer : Buffer) (earlier later : List Call) :
    buffer.writeAll (earlier ++ later) = (buffer.writeAll earlier).writeAll later :=
  List.foldl_append

/-- A range is read by its bytes. -/
theorem slice_of_getElem? {buffer : Buffer} {index : Nat} {bytes : List UInt8}
    (inside : index + bytes.length ≤ buffer.capacity)
    (each : ∀ place < bytes.length, buffer.toList[index + place]? = bytes[place]?) :
    (buffer.slice index bytes.length : Outcome CodecError (List UInt8)) = .ok bytes := by
  rw [slice_eq _ _ _ inside]
  refine congrArg Except.ok (List.ext_getElem? fun place => ?_)
  by_cases within : place < bytes.length
  · rw [List.getElem?_take_of_lt within, List.getElem?_drop, each place within]
  · rw [List.getElem?_take_eq_none (Nat.le_of_not_lt within),
      List.getElem?_eq_none (Nat.le_of_not_lt within)]

/-- The range of a call that no later call meets holds the bytes of the call. -/
theorem slice_writeAll {buffer : Buffer} {earlier later : List Call} {call : Call}
    (fit : ∀ other ∈ earlier ++ call :: later, other.FitsIn buffer)
    (last : ∀ other ∈ later, call.Apart other) :
    ((buffer.writeAll (earlier ++ call :: later)).slice call.index call.length :
      Outcome CodecError (List UInt8)) = .ok call.source := by
  have fits (other : Call) (member : other ∈ call :: later) :
      other.FitsIn (buffer.writeAll earlier) := by
    rw [Call.FitsIn, capacity_writeAll]
    exact fit other (List.mem_append_right earlier member)
  obtain ⟨first, others⟩ := List.forall_mem_cons.mp fits
  rw [writeAll_append, ← call.length_source]
  refine slice_of_getElem? ?_ fun place within => ?_
  · rw [call.length_source, capacity_writeAll]
    exact first
  · rw [call.length_source] at within
    have covered : call.Covers (call.index + place) :=
      ⟨Nat.le_add_right _ _, Nat.add_lt_add_left within _⟩
    have free : ∀ other ∈ later, ¬ other.Covers (call.index + place) :=
      fun other member meets => last other member _ ⟨covered, meets⟩
    calc (((buffer.writeAll earlier).write call).writeAll later).toList[call.index + place]?
      _ = ((buffer.writeAll earlier).write call).toList[call.index + place]? :=
        getElem?_writeAll (fun other member => fitsIn_write.mpr (others other member)) free
      _ = call.source[place]? := by
        rw [getElem?_write first, if_pos covered, Nat.add_sub_cancel_left]

theorem slice_write {buffer : Buffer} {call : Call} (fits : call.FitsIn buffer) :
    ((buffer.write call).slice call.index call.length : Outcome CodecError (List UInt8)) =
      .ok call.source := by
  have fit : ∀ other ∈ [] ++ [call], other.FitsIn buffer := List.forall_mem_singleton.mpr fits
  exact slice_writeAll fit (List.forall_mem_nil _)

/-- A range that holds the bytes of a call gives back what the call writes. -/
theorem Call.readsBack_of_slice {buffer : Buffer} {call : Call}
    (held : (buffer.slice call.index call.length : Outcome CodecError (List UInt8)) =
      .ok call.source) : call.ReadsBack buffer := by
  cases call with
  | number primitive index value order admits =>
    have found : (buffer.slice index primitive.size : Outcome CodecError (List UInt8)) =
      .ok (order.bytes primitive.size (primitive.pattern value)) := held
    have cut : primitive.pattern value % patternCount primitive.size = primitive.pattern value :=
      Nat.mod_eq_of_lt (primitive.pattern_lt_patterns value)
    show ((buffer.slice index primitive.size : Outcome CodecError (List UInt8)).map
        order.number).map primitive.value = .ok value
    rw [found]
    show Except.ok _ = Except.ok _
    rw [ByteOrder.number_bytes, cut, Primitive.value_pattern admits]
  | bytes => exact held
  | fill => exact held

/-- Calls on ranges that do not meet give the same bytes in every order. -/
theorem writeAll_perm (buffer : Buffer) {calls others : List Call}
    (apart : calls.Pairwise Call.Apart) (perm : others.Perm calls) :
    buffer.writeAll others = buffer.writeAll calls := by
  have : Std.Symm Call.Apart := ⟨fun _ _ => Call.Apart.symm⟩
  refine (perm.symm.foldl_eq' ?_ buffer).symm
  intro call member other inside between
  by_cases same : call = other
  · rw [same]
  · exact write_comm between (apart.forall member inside same)

end Buffer

/-! ### Byte orders -/

/-- The bytes of a number are its digits to the base 256, the least significant first. -/
theorem getElem?_littleEndian {size place : Nat} (within : place < size) (number : Nat) :
    (littleEndian size number)[place]? = some (UInt8.ofNat (number / patternCount place)) := by
  induction size generalizing number place with
  | zero => cases within
  | succ size ih =>
    cases place with
    | zero =>
      rw [littleEndian, List.getElem?_cons_zero, show patternCount 0 = 1 from rfl, Nat.div_one]
    | succ place =>
      rw [littleEndian, List.getElem?_cons_succ, ih (Nat.lt_of_succ_lt_succ within),
        patternCount_succ, Nat.div_div_eq_div_mul]

namespace Buffer

/-- What a number is as bytes in either order: those of the one order are those of the other from
back to front, and the first in little-endian order is the least significant. -/
def Mirrors (buffer : Buffer) (primitive : Primitive) (index : Nat) (value : Int)
    (admits : primitive.Admits value) : Prop :=
  ∃ (little big : Buffer) (bytes : List UInt8),
    (Call.number primitive index value .littleEndian admits).perform buffer = .ok little ∧
    (Call.number primitive index value .bigEndian admits).perform buffer = .ok big ∧
    (little.slice index primitive.size : Outcome CodecError (List UInt8)) = .ok bytes ∧
    (big.slice index primitive.size : Outcome CodecError (List UInt8)) = .ok bytes.reverse ∧
    ∀ place < primitive.size,
      bytes[place]? = some (UInt8.ofNat (primitive.pattern value / patternCount place))

/-- The bytes of a number are mirrored wherever it fits. -/
theorem mirrors {buffer : Buffer} {primitive : Primitive} {index : Nat} {value : Int}
    (admits : primitive.Admits value) (inside : index + primitive.size ≤ buffer.capacity) :
    buffer.Mirrors primitive index value admits := by
  have fits (order : ByteOrder) : (Call.number primitive index value order admits).FitsIn buffer :=
    inside
  exact ⟨_, _, _, perform_eq (fits _), perform_eq (fits _), slice_write (fits .littleEndian),
    slice_write (fits .bigEndian), fun place within => getElem?_littleEndian within _⟩

/-! ### What calls leave behind -/

/-- What is left of calls on a buffer. -/
structure Stores (buffer : Buffer) (calls : List Call) (after : Buffer) : Prop where
  /-- The length stays. -/
  capacity : after.capacity = buffer.capacity
  /-- What a call wrote is read back where no later call met its range. -/
  readsBack : ∀ earlier call later, calls = earlier ++ call :: later →
    (∀ other ∈ later, call.Apart other) → call.ReadsBack after
  /-- Bytes that no call covers stay. -/
  untouched : ∀ position, (∀ call ∈ calls, ¬ call.Covers position) →
    after.toList[position]? = buffer.toList[position]?
  /-- Calls in a row on ranges that do not meet may be made in any order. -/
  reordered : ∀ earlier row others later,
    calls = earlier ++ row ++ later → row.Pairwise Call.Apart →
    others.Perm row → buffer.performAll (earlier ++ others ++ later) = .ok after

theorem stores_writeAll {buffer : Buffer} {calls : List Call}
    (fit : ∀ call ∈ calls, call.FitsIn buffer) : Stores buffer calls (buffer.writeAll calls) where
  capacity := capacity_writeAll buffer calls
  readsBack earlier call later split last := by
    subst split
    exact Call.readsBack_of_slice (slice_writeAll fit last)
  untouched position free := getElem?_writeAll fit free
  reordered earlier row others later split apart perm := by
    subst split
    have same : ∀ call ∈ earlier ++ others ++ later, call.FitsIn buffer := by
      intro call member
      refine fit call ?_
      simpa [perm.mem_iff] using member
    rw [performAll_eq same]
    simp only [writeAll_append, writeAll_perm _ apart perm]

/-- **Reading gives what was written last.** Calls with ranges inside a buffer all succeed. They
keep its length and every byte that none of them covers; what a call wrote is read back, as the same
type in the same byte order, unless a later call met its range; and calls on ranges that do not meet
give the same bytes in every order. A number in one byte order has the bytes that it has in the
other from back to front. -/
theorem performAll_stores (buffer : Buffer) :
    (∀ calls : List Call, (∀ call ∈ calls, call.FitsIn buffer) →
      ∃ after, buffer.performAll calls = .ok after ∧ Stores buffer calls after) ∧
    ∀ (primitive : Primitive) (index : Nat) (value : Int) (admits : primitive.Admits value),
      index + primitive.size ≤ buffer.capacity → buffer.Mirrors primitive index value admits :=
  ⟨fun _ fit => ⟨_, performAll_eq fit, stores_writeAll fit⟩,
    fun _ _ _ admits inside => mirrors admits inside⟩

/-- A range filled, a signed number written into it, and bytes over the last of the fill. -/
def overlapping : List Call :=
  [.fill 1 8 0xaa, .number .int32 2 (-2) .bigEndian (by decide), .bytes 7 [1, 2, 3]]

/-- The number and the bytes are read back, and the first byte stays. A double is mirrored. -/
theorem overlapping_stores :
    (∀ call ∈ overlapping, call.FitsIn (.ofList (List.replicate 10 7))) ∧
    (∃ after, (Buffer.ofList (List.replicate 10 7)).performAll overlapping = .ok after ∧
      (after.getNumber 4 2 .bigEndian : Outcome CodecError Nat).map Primitive.int32.value =
        .ok (-2) ∧
      (after.slice 7 3 : Outcome CodecError (List UInt8)) = .ok [1, 2, 3] ∧
      after.toList[0]? = some 7) ∧
    (Buffer.ofList (List.replicate 10 7)).Mirrors .double 1 0x3ff8000000000000 (by decide) := by
  have fit : ∀ call ∈ overlapping, call.FitsIn (.ofList (List.replicate 10 7)) := by decide
  obtain ⟨sequences, mirrored⟩ := performAll_stores (.ofList (List.replicate 10 7))
  obtain ⟨after, done, stores⟩ := sequences overlapping fit
  refine ⟨fit,
    ⟨after, done, stores.readsBack [_] _ _ rfl ?_, stores.readsBack [_, _] _ [] rfl ?_, ?_⟩, ?_⟩
  · intro other member position covered
    rw [List.mem_singleton.mp member] at covered
    simp only [Call.Covers, Call.index, Call.length, Primitive.size, List.length_cons,
      List.length_nil] at covered
    omega
  · exact List.forall_mem_nil _
  · exact stores.untouched 0 (by decide)
  · exact mirrored .double 1 _ _ (by decide)

end Buffer

end Sbe
