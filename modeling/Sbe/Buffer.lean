import Sbe.Token

/-!
**Buffers.**

A buffer is a fixed number of bytes. Ranges of it are read and overwritten; a range that leaves the
buffer is a fault. A number is written as its bit pattern, in either byte order.
-/

namespace Sbe

/-! ### Numbers as bytes -/

/-- The low bytes of a number, the least significant first. -/
def littleEndian : Nat → Nat → List UInt8
  | 0, _ => []
  | size + 1, number => UInt8.ofNat number :: littleEndian size (number / 256)

/-- The number whose bytes are given, the least significant first. -/
def ofLittleEndian : List UInt8 → Nat
  | [] => 0
  | byte :: rest => byte.toNat + 256 * ofLittleEndian rest

/-- The number of patterns of `size` bytes. -/
def patternCount (size : Nat) : Nat := Nat.pow 256 size

theorem patternCount_succ (size : Nat) : patternCount (size + 1) = 256 * patternCount size :=
  Nat.mul_comm _ _

theorem littleEndian_length (size number : Nat) : (littleEndian size number).length = size := by
  induction size generalizing number with
  | zero => rfl
  | succ size ih => simp [littleEndian, ih]

/-- Reading back the bytes of a number gives the number, cut to their count. -/
theorem ofLittleEndian_littleEndian (size number : Nat) :
    ofLittleEndian (littleEndian size number) = number % patternCount size := by
  induction size generalizing number with
  | zero => simp [littleEndian, ofLittleEndian, patternCount, Nat.mod_one]
  | succ size ih =>
    simp only [littleEndian, ofLittleEndian, ih, UInt8.toNat_ofNat']
    rw [show number % 2 ^ 8 = number % 256 from rfl, patternCount_succ, Nat.mod_mul]

theorem ofLittleEndian_lt (bytes : List UInt8) :
    ofLittleEndian bytes < patternCount bytes.length := by
  induction bytes with
  | nil => simp [ofLittleEndian, patternCount]
  | cons byte rest ih =>
    have small := byte.toNat_lt
    simp only [ofLittleEndian, List.length_cons, patternCount_succ]
    omega

namespace ByteOrder

/-- The low bytes of a number in a byte order. -/
def bytes (order : ByteOrder) (size number : Nat) : List UInt8 :=
  match order with
  | .littleEndian => Sbe.littleEndian size number
  | .bigEndian => (Sbe.littleEndian size number).reverse

/-- The number whose bytes are given in a byte order. -/
def number (order : ByteOrder) (bytes : List UInt8) : Nat :=
  match order with
  | .littleEndian => ofLittleEndian bytes
  | .bigEndian => ofLittleEndian bytes.reverse

@[simp] theorem bytes_length (order : ByteOrder) (size number : Nat) :
    (order.bytes size number).length = size := by
  cases order <;> simp [bytes, littleEndian_length]

/-- Reading back the bytes of a number gives the number, cut to their count. -/
theorem number_bytes (order : ByteOrder) (size number : Nat) :
    order.number (order.bytes size number) = number % patternCount size := by
  cases order <;> simp [bytes, ByteOrder.number, ofLittleEndian_littleEndian]

end ByteOrder

/-! ### Buffers -/

/-- A buffer, by its bytes. -/
structure Buffer where
  bytes : Array UInt8
deriving DecidableEq

namespace Buffer

variable {ε : Type}

/-- The buffer of the given bytes. -/
def ofList (bytes : List UInt8) : Buffer := ⟨bytes.toArray⟩

/-- The bytes of a buffer. -/
def toList (buffer : Buffer) : List UInt8 := buffer.bytes.toList

/-- The number of bytes. -/
def capacity (buffer : Buffer) : Nat := buffer.bytes.size

/-- Bytes with those from an index on replaced. -/
def replaceFrom (bytes : Array UInt8) (index : Nat) : List UInt8 → Array UInt8
  | [] => bytes
  | byte :: rest => replaceFrom (bytes.setIfInBounds index byte) (index + 1) rest

/-- The buffer with the bytes from an index on replaced. -/
def overwrite (buffer : Buffer) (index : Nat) (source : List UInt8) : Buffer :=
  ⟨replaceFrom buffer.bytes index source⟩

/-- Whether a range lies inside the buffer. -/
def holds (buffer : Buffer) (index length : Nat) : Bool := decide (index + length ≤ buffer.capacity)

/-- The bytes of a range. -/
def slice (buffer : Buffer) (index length : Nat) : Outcome ε (List UInt8) :=
  if buffer.holds index length then .ok (buffer.bytes.extract index (index + length)).toList
  else .fault

/-- The buffer with bytes written from an index on. -/
def putBytes (buffer : Buffer) (index : Nat) (source : List UInt8) : Outcome ε Buffer :=
  if buffer.holds index source.length then .ok (buffer.overwrite index source) else .fault

/-- The buffer with a range filled with one byte. -/
def fill (buffer : Buffer) (index length : Nat) (value : UInt8) : Outcome ε Buffer :=
  if buffer.holds index length then .ok (buffer.overwrite index (List.replicate length value))
  else .fault

/-- The bit pattern of a number of `size` bytes. -/
def getNumber (buffer : Buffer) (size index : Nat) (order : ByteOrder) : Outcome ε Nat :=
  (buffer.slice index size).map order.number

/-- The buffer with the bit pattern of a number of `size` bytes written. -/
def putNumber (buffer : Buffer) (size index pattern : Nat) (order : ByteOrder) :
    Outcome ε Buffer :=
  buffer.putBytes index (order.bytes size pattern)

/-! ### The view as a list -/

@[simp] theorem toList_ofList (bytes : List UInt8) : (ofList bytes).toList = bytes := rfl

theorem length_toList (buffer : Buffer) : buffer.toList.length = buffer.capacity := by
  simp [toList, capacity]

theorem toList_replaceFrom (bytes : Array UInt8) (index : Nat) (source : List UInt8)
    (inside : index + source.length ≤ bytes.size) :
    (replaceFrom bytes index source).toList =
      bytes.toList.take index ++ source ++ bytes.toList.drop (index + source.length) := by
  induction source generalizing bytes index with
  | nil => simp [replaceFrom]
  | cons byte rest ih =>
    simp only [List.length_cons] at inside
    rw [replaceFrom, ih _ _ (by simp only [Array.size_setIfInBounds]; omega),
      Array.toList_setIfInBounds]
    have bound : index < bytes.toList.length := by simp only [Array.length_toList]; omega
    rw [List.take_set, List.drop_set, if_pos (by omega), List.take_succ_eq_append_getElem bound,
      List.set_append_right _ _ (List.length_take_le _ _)]
    simp only [List.length_take, List.length_cons]
    rw [show index - min index bytes.toList.length = 0 by omega,
      show index + 1 + rest.length = index + (rest.length + 1) by omega]
    simp

/-- Overwriting changes the range it covers and nothing else. -/
theorem toList_overwrite (buffer : Buffer) (index : Nat) (source : List UInt8)
    (inside : index + source.length ≤ buffer.capacity) :
    (buffer.overwrite index source).toList =
      buffer.toList.take index ++ source ++ buffer.toList.drop (index + source.length) :=
  toList_replaceFrom buffer.bytes index source inside

/-- Overwriting keeps the number of bytes. -/
@[simp] theorem capacity_overwrite (buffer : Buffer) (index : Nat) (source : List UInt8) :
    (buffer.overwrite index source).capacity = buffer.capacity := by
  unfold overwrite capacity
  simp only
  induction source generalizing buffer index with
  | nil => rfl
  | cons byte rest ih =>
    rw [replaceFrom]
    have step := ih ⟨buffer.bytes.setIfInBounds index byte⟩ (index + 1)
    simpa using step

/-- A range read is a stretch of the bytes. -/
theorem slice_eq (buffer : Buffer) (index length : Nat)
    (inside : index + length ≤ buffer.capacity) :
    (buffer.slice index length : Outcome ε (List UInt8)) =
      .ok ((buffer.toList.drop index).take length) := by
  simp [slice, holds, inside, toList, List.take_drop]

end Buffer

end Sbe
