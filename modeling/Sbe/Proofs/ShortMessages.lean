import Sbe.Demo.Order
import Sbe.Demo.Service
import Sbe.Proofs.OlderMessages

/-!
**How writing an order or a service visit ends.**

An order or a service visit is written without an error exactly when it keeps to the bounds of its
group and of its value of variable length. The first bound that is broken is the one that is named,
and what was written up to there stays.

* `Leaves`, `Ends`: writers that put some bytes and then end in whatever way;
* `MessageShape.run_encode`, `MessageShape.run_decode`: messages behind their headers;
* `NeverExhausts`: writers that never ask a group for one repetition too many;
* `Order.encodesIn`, `Service.encodesIn`: the two messages.
-/

namespace Sbe

namespace Codec

variable {α β : Type} {version : Nat}

/-! ### Writers that may be refused -/

/-- Work that puts bytes at the limit, moves the limit past them, and ends with an outcome. -/
def Leaves (work : Codec Unit) (bytes : List UInt8) (outcome : Outcome CodecError Unit) : Prop :=
  ∀ wire : Wire, wire.cursor.limit + bytes.length ≤ wire.buffer.capacity →
    wire.cursor.limit + bytes.length < wordBound → work.run wire = (outcome, wire.append bytes)

/-- Work that puts bytes into a block below the limit, appends further bytes, and ends with an
outcome. -/
def Ends (work : Codec Unit) (index : Nat) (block tail : List UInt8)
    (outcome : Outcome CodecError Unit) : Prop :=
  ∀ wire : Wire, index + block.length ≤ wire.cursor.limit →
    wire.cursor.limit + tail.length ≤ wire.buffer.capacity →
    wire.cursor.limit + tail.length < wordBound →
    work.run wire = (outcome, (wire.put index block).append tail)

section

variable {first second : Codec Unit} {index : Nat} {front back block tail : List UInt8}
  {outcome : Outcome CodecError Unit}

theorem Appends.leaves (appends : Appends first front) : Leaves first front (.ok ()) := appends

theorem Appends.bind_leaves (one : Appends first front) (two : Leaves second back outcome) :
    Leaves (first >>= fun _ => second) (front ++ back) outcome := by
  intro wire room small
  rw [List.length_append] at room small
  rw [run_bind_of_ok (one wire (by omega) (by omega)), two, Wire.append_append]
  · rw [Wire.limit_append, Wire.capacity_append]
    omega
  · rw [Wire.limit_append]
    omega

/-- What comes after work that is refused is not done. -/
theorem Leaves.bind_of_error {halt : Halt CodecError} (stopped : Leaves first front (.error halt)) :
    Leaves (first >>= fun _ => second) front (.error halt) := by
  intro wire room small
  rw [run_bind, stopped wire room small]

theorem Puts.bind_leaves (puts : Puts first index block) (leaves : Leaves second tail outcome) :
    Ends (first >>= fun _ => second) index block tail outcome := by
  intro wire below room small
  rw [run_bind_of_ok (puts wire (by omega) (by omega))]
  refine leaves (wire.put index block) ?_ small
  rwa [Wire.buffer_put, Buffer.capacity_overwrite]

theorem Puts.bind_ends (puts : Puts first index front)
    (ends : Ends second (index + front.length) block tail outcome) :
    Ends (first >>= fun _ => second) index (front ++ block) tail outcome := by
  intro wire below room small
  rw [List.length_append] at below
  rw [run_bind_of_ok (puts wire (by omega) (by omega)), ends, Wire.put_append]
  · rw [Wire.cursor_put]
    omega
  · rwa [Wire.cursor_put, Wire.buffer_put, Buffer.capacity_overwrite]
  · exact small

theorem Ends.after_view {view : Codec α} {value : α} {next : α → Codec Unit}
    (ends : Ends (next value) index block tail outcome)
    (found : index < wordBound → ∀ wire, view.run wire = (.ok value, wire)) :
    Ends (view >>= next) index block tail outcome := by
  intro wire below room small
  rw [run_bind_of_ok (found (by omega) wire)]
  exact ends wire below room small

end

/-- What stands behind a block is read without looking at the block. -/
theorem Reads.scans {work : Codec α} {tail : List UInt8} {value : α}
    (reads : Reads version work tail value) (index : Nat) (block : List UInt8) :
    Scans version work index block tail value :=
  fun wire same _ _ holds small => reads wire same holds small

/-- A count outside the bounds is refused before anything is written. -/
theorem GroupShape.writeAll_leaves_of_count {shape : GroupShape} {items : List α}
    {work : GroupView → α → Codec Unit} (many : shape.greatestCount < min items.length 65535) :
    Leaves (shape.writeAll items work) [] (.refuse (.countOutOfRange shape.name
          (min items.length 65535) shape.leastCount shape.greatestCount)) := by
  intro wire _ _
  rw [writeAll, openWrite, if_neg (by omega)]
  rfl

/-- Too many bytes are refused before any of them is written. -/
theorem VarField.put_leaves_of_length {field : VarField} {source : List UInt8}
    (long : field.greatestLength < source.length) :
    Leaves (field.put source) [] (.refuse
      (.lengthExceedsMaximum field.name source.length field.greatestLength)) := by
  intro wire _ _
  rw [put, if_pos long]
  rfl

/-- The length of a group whose repetitions all have the same size. -/
theorem length_repetitions {block tail : α → List UInt8} {items : List α} (size : Nat)
    (each : ∀ item ∈ items, (block item).length + (tail item).length = size) :
    (repetitions block tail items).length = items.length * size := by
  induction items with
  | nil => simp [repetitions]
  | cons item rest ih =>
    obtain ⟨first, later⟩ := List.forall_mem_cons.mp each
    rw [repetitions_cons, List.length_append, List.length_append, ih later, first, List.length_cons,
      Nat.succ_mul, Nat.add_comm]

/-! ### Messages behind their headers -/

namespace MessageShape

variable {shape : MessageShape} {block tail : List UInt8}

/-- The bytes of a message behind its header. -/
def message (shape : MessageShape) (block tail : List UInt8) : List UInt8 :=
  shape.header.bytes ++ (block ++ tail)

/-- The wire after bytes have been written or read at the start of a buffer. -/
def wrote (shape : MessageShape) (bytes : List UInt8) (buffer : Buffer) : Wire :=
  ⟨.ofList (bytes ++ buffer.toList.drop bytes.length), ⟨bytes.length, shape.version⟩⟩

theorem drop_wrote (shape : MessageShape) (bytes : List UInt8) (buffer : Buffer) :
    (shape.wrote bytes buffer).buffer.toList.drop bytes.length =
      buffer.toList.drop bytes.length := by
  rw [wrote, Buffer.toList_ofList, List.drop_left]

theorem length_message (size : block.length = shape.blockLength) (tail : List UInt8) :
    (shape.message block tail).length = 8 + shape.blockLength + tail.length := by
  rw [message, List.length_append, List.length_append, Header.length_bytes, size, Nat.add_assoc]
  rfl

/-- The header, the block and the tail stand one after another. -/
theorem overwrite_message (size : block.length = shape.blockLength) {buffer : Buffer}
    (room : (shape.message block tail).length ≤ buffer.capacity) :
    ((buffer.overwrite 0 shape.header.bytes).overwrite 8 block).overwrite (8 + shape.blockLength)
        tail = (shape.wrote (shape.message block tail) buffer).buffer := by
  rw [wrote, ← Buffer.overwrite_zero room, message, Buffer.overwrite_append,
    Buffer.overwrite_append, Header.length_bytes, size]
  rfl

/-- Writes a message behind its header; gives the number of bytes written. -/
def encode (shape : MessageShape) (write : MessageView → Codec Unit) : Codec Nat := do
  let view ← shape.openWithHeader 0
  write view
  pure (headerType.encodedLength + (← view.encodedLength))

/-- Writing a message puts its bytes at the start of the buffer, as many as are written before it
ends. -/
theorem run_write {write : MessageView → Codec Unit} {outcome : Outcome CodecError Unit}
    (ends : ∀ view : MessageView, Ends (write view) view.offset block tail outcome)
    (size : block.length = shape.blockLength) {buffer : Buffer}
    (room : (shape.message block tail).length ≤ buffer.capacity)
    (small : (shape.message block tail).length < wordBound) :
    ∃ middle, (shape.openWithHeader 0).run (fresh buffer) =
        (.ok ⟨shape, 8, shape.blockLength⟩, middle) ∧
      (write ⟨shape, 8, shape.blockLength⟩).run middle =
        (outcome, shape.wrote (shape.message block tail) buffer) := by
  have length := length_message size tail
  have opening : (shape.openWithHeader 0).run (fresh buffer) = (.ok ⟨shape, 8, shape.blockLength⟩,
      ⟨buffer.overwrite 0 shape.header.bytes, ⟨8 + shape.blockLength, shape.version⟩⟩) :=
    run_openWithHeader (by show 8 ≤ buffer.capacity; omega) (by show 8 + _ < _; omega)
  have written := ends ⟨shape, 8, shape.blockLength⟩
    ⟨buffer.overwrite 0 shape.header.bytes, ⟨8 + shape.blockLength, shape.version⟩⟩
    (by rw [size]) (by rw [Buffer.capacity_overwrite]; show 8 + _ + _ ≤ _; omega)
    (by show 8 + _ + _ < _; omega)
  have final : (Wire.put ⟨buffer.overwrite 0 shape.header.bytes,
      ⟨8 + shape.blockLength, shape.version⟩⟩ 8 block).append tail =
      shape.wrote (shape.message block tail) buffer := by
    rw [Wire.append, Wire.put, Wire.put]
    dsimp only
    rw [overwrite_message size room, Wire.advance, wrote, length]
  exact ⟨_, opening, written.trans (congrArg _ final)⟩

/-- A message is measured after it is written, and the bytes behind it stay. -/
theorem run_encode {write : MessageView → Codec Unit} {outcome : Outcome CodecError Unit}
    (ends : ∀ view : MessageView, Ends (write view) view.offset block tail outcome)
    (size : block.length = shape.blockLength) {buffer : Buffer} {total : Nat}
    (length : 8 + shape.blockLength + tail.length = total) (room : total ≤ buffer.capacity)
    (small : total < wordBound) :
    (shape.encode write).run (fresh buffer) =
        (outcome.map fun _ => total, shape.wrote (shape.message block tail) buffer) ∧
      (shape.wrote (shape.message block tail) buffer).buffer.toList.drop total =
        buffer.toList.drop total := by
  have whole : (shape.message block tail).length = total := (length_message size tail).trans length
  have unchanged := shape.drop_wrote (shape.message block tail) buffer
  rw [whole] at unchanged
  refine ⟨?_, unchanged⟩
  obtain ⟨middle, opening, written⟩ := run_write ends size (whole ▸ room) (whole ▸ small)
  rw [encode, run_bind_of_ok opening, run_bind, written]
  cases outcome with
  | error halt => rfl
  | ok done =>
    have measured : (⟨shape, 8, shape.blockLength⟩ : MessageView).encodedLength.run
        (shape.wrote (shape.message block tail) buffer) =
        (.ok ((shape.message block tail).length - 8),
          shape.wrote (shape.message block tail) buffer) :=
      MessageView.run_encodedLength (by show 8 ≤ (shape.message block tail).length; omega)
    have total : headerType.encodedLength + ((shape.message block tail).length - 8) = total := by
      show 8 + _ = _
      omega
    dsimp only
    rw [run_bind_of_ok measured, run_pure, total]
    rfl

/-- The whole message is found at the start of the buffer. -/
theorem holds_message (shape : MessageShape) (block tail : List UInt8) (buffer : Buffer) :
    (shape.wrote (shape.message block tail) buffer).buffer.Holds 0
      (shape.header.bytes ++ (block ++ tail)) :=
  ⟨[], _, Buffer.toList_ofList _, rfl⟩

section

variable {work : MessageView → Codec α} {value : α}
  (scans : ∀ view : MessageView, Scans shape.version (work view) view.offset block tail value)
  (size : block.length = shape.blockLength) (small : (shape.message block tail).length < wordBound)
  (buffer : Buffer)
include scans size small

/-- Reading in the version of the schema finds what was written. -/
theorem run_decode :
    (shape.openAt headerType.encodedLength shape.blockLength shape.version >>= work).run
        (fresh (shape.wrote (shape.message block tail) buffer).buffer) =
      (.ok value, shape.wrote (shape.message block tail) buffer) := by
  have length : (shape.message block tail).length = 8 + (block ++ tail).length := by
    rw [message, List.length_append, Header.length_bytes]
    rfl
  have body := (holds_message shape block tail buffer).right
  rw [Header.length_bytes, Nat.zero_add] at body
  rw [length] at small
  rw [Scans.run_openAt (scans _) size body small, wrote, length]
  rfl

/-- Reading by the header finds what was written. -/
theorem run_decodeByHeader (fits : shape.header.Fits) :
    (shape.openByHeader >>= work).run
        (fresh (shape.wrote (shape.message block tail) buffer).buffer) =
      (.ok value, shape.wrote (shape.message block tail) buffer) := by
  have length := length_message size tail
  have bound : headerType.encodedLength + shape.blockLength < wordBound := by
    show 8 + _ < _
    omega
  have opening : shape.openByHeader.run
      (fresh (shape.wrote (shape.message block tail) buffer).buffer) = _ :=
    run_openByHeader fits (holds_message shape block tail buffer).left bound
  have same := run_decode scans size small buffer
  rw [run_bind_of_ok (run_openAt shape bound shape.version _)] at same
  rw [run_bind_of_ok opening]
  exact same

end

end MessageShape

/-! ### Groups that are never exhausted -/

/-- Work that is never refused for want of a further repetition. -/
def NeverExhausts (work : Codec α) : Prop :=
  ∀ wire name count after, work.run wire ≠ (.error (.refused (.groupExhausted name count)), after)

theorem Firm.neverExhausts {work : Codec α} (firm : Firm work) : NeverExhausts work :=
  fun wire _ _ after => firm wire _ after

namespace NeverExhausts

theorem refuse {cause : CodecError} (other : ∀ name count, cause ≠ .groupExhausted name count) :
    NeverExhausts (refuse cause : Codec α) := by
  intro wire name count after refused
  cases refused
  exact other name count rfl

theorem bind {first : Codec α} {next : α → Codec β} (one : NeverExhausts first)
    (two : ∀ value, NeverExhausts (next value)) : NeverExhausts (first >>= next) := by
  intro wire name count after refused
  rcases run_bind_eq_error refused with early | ⟨value, middle, _, late⟩
  · exact one wire name count after early
  · exact two value middle name count after late

theorem ite {condition : Prop} [Decidable condition] {yes no : Codec α} (one : NeverExhausts yes)
    (two : NeverExhausts no) : NeverExhausts (if condition then yes else no) := by
  split
  · exact one
  · exact two

end NeverExhausts

theorem getNumber_firm (primitive : Primitive) (index : Nat) : Firm (getNumber primitive index) :=
  (Firm.slice _ _).bind fun _ => .pure _

theorem encodeText_neverExhausts (charset : Text.Charset) (text : String) :
    NeverExhausts (encodeText charset text) := by
  unfold encodeText
  split
  · exact (Firm.pure _).neverExhausts
  · exact .refuse fun _ _ same => by cases same

theorem VarField.put_neverExhausts (field : VarField) (source : List UInt8) :
    NeverExhausts (field.put source) := by
  refine .ite (.refuse fun _ _ same => by cases same) (Firm.neverExhausts ?_)
  exact Firm.limit.bind fun _ => (Firm.addSize _ _).bind fun _ => (Firm.setLimit _).bind fun _ =>
    (putNumber_firm _ _ _).bind fun _ => .putBytes _ _

/-- As many repetitions as were opened can be written. -/
theorem GroupView.writeEach_firm {work : GroupView → α → Codec Unit}
    (each : ∀ view item, Firm (work view item)) {items : List α} {view : GroupView}
    (enough : view.taken + items.length ≤ view.count) : Firm (view.writeEach work items) := by
  induction items generalizing view with
  | nil => exact .pure ()
  | cons item rest ih =>
    rw [List.length_cons] at enough
    intro wire cause after refused
    rw [writeEach] at refused
    rcases run_bind_eq_error refused with early | ⟨moved, middle, stepped, late⟩
    · have more : view.taken < view.count := by omega
      exact next_firm more wire cause after early
    · obtain ⟨rfl, _⟩ := run_next_eq_ok stepped
      refine Firm.bind (each _ item) (fun _ => ih ?_) middle cause after late
      show view.taken + 1 + rest.length ≤ view.count
      omega

/-- A list that is too long for its count on the wire is refused when the group is opened. -/
theorem GroupShape.writeAll_neverExhausts {shape : GroupShape} {work : GroupView → α → Codec Unit}
    (each : ∀ view item, Firm (work view item)) (bound : shape.greatestCount < 65535)
    (items : List α) : NeverExhausts (shape.writeAll items work) := by
  intro wire name count after refused
  rcases run_bind_eq_error refused with early | ⟨view, middle, opened, late⟩
  · unfold openWrite at early
    split at early
    · refine Firm.bind .limit (fun start => ?_) wire _ after early
      exact (putNumber_firm _ _ _).bind fun _ => (putNumber_firm _ _ _).bind fun _ =>
        (Firm.addSize _ _).bind fun _ => (Firm.setLimit _).bind fun _ => .pure _
    · cases early
  · have counted : min items.length 65535 ≤ shape.greatestCount := by
      by_contra many
      rw [openWrite, if_neg (by omega)] at opened
      cases opened
    obtain ⟨rfl, _⟩ := run_openWrite_eq_ok opened
    refine GroupView.writeEach_firm each ?_ middle _ after late
    show 0 + items.length ≤ min items.length 65535
    omega

theorem MessageShape.encode_neverExhausts (shape : MessageShape) {write : MessageView → Codec Unit}
    (each : ∀ view, NeverExhausts (write view)) : NeverExhausts (shape.encode write) := by
  have measuring (view : MessageView) : Firm view.encodedLength := by
    refine Firm.limit.bind fun limit wire cause after refused => ?_
    change (subSize limit view.offset, wire) = _ at refused
    unfold subSize at refused
    split at refused
    · cases refused
    · cases refused
  refine (shape.openWithHeader_firm 0).neverExhausts.bind fun view =>
    (each view).bind fun _ => ?_
  exact (measuring view).neverExhausts.bind fun _ => (Firm.pure _).neverExhausts

end Codec

namespace Demo

open Sbe.Codec
open Sbe.Codec.MessageShape (fresh)

variable {version : Nat}

/-! ### Orders -/

namespace Order

/-- The bytes of the block of an order. -/
def block (order : Order) : List UInt8 := numberBytes .uint32 order.quantity.toNat

/-- The bytes of the price of a fill. -/
def priceBytes (price : Int16) : List UInt8 := numberBytes .int16 price.toUInt16.toNat

/-- The bytes of the group of fills. -/
def fillBytes (order : Order) : List UInt8 :=
  dimensionBytes fills.blockLength order.prices.length ++
    repetitions priceBytes (fun _ => []) order.prices

/-- The bytes of the note, without its length. -/
def noteBytes (order : Order) : List UInt8 := Text.Utf8.encode order.note.toList

/-- The number of bytes of an order behind its header. -/
def fullLength (order : Order) : Nat :=
  8 + 4 + 4 + 2 * order.prices.length + 4 + order.noteBytes.length

/-- Reads an order as its header says. -/
def decode : Codec Order := do read (← shape.openByHeader)

theorem length_fillBytes (order : Order) :
    order.fillBytes.length = 4 + 2 * order.prices.length := by
  rw [fillBytes, List.length_append, length_dimensionBytes, length_repetitions 2, Nat.mul_comm]
  · rfl
  · exact fun price _ => length_numberBytes _ _

/-- The number of bytes of an order is that of its header, its block and its tail. -/
theorem length_tail (order : Order) :
    12 + (order.fillBytes ++ sizedBytes order.noteBytes).length = order.fullLength := by
  rw [List.length_append, length_fillBytes, length_sizedBytes, fullLength, VarField.headerLength]
  omega

theorem readPrice_gets (price : Int16) (view : GroupView) :
    Gets version (readPrice view) view.offset (priceBytes price) price := by
  have found : Gets version (priceField.read view.offset) view.offset (priceBytes price)
      price.toUInt16.toNat := NumberField.gets (Nat.zero_le _) rfl price.toUInt16.toNat_lt
  have read := found.map fun pattern => (UInt16.ofNat pattern).toInt16
  rw [UInt16.ofNat_toNat, Int16.toInt16_toUInt16] at read
  exact read

variable {order : Order}

theorem fullLength_lt (few : order.prices.length ≤ 10)
    (short : order.noteBytes.length ≤ 1073741824) : order.fullLength < wordBound := by
  rw [fullLength, wordBound]
  omega

theorem fills_appends (few : order.prices.length ≤ 10) :
    Appends (fills.writeAll order.prices writePrice) order.fillBytes :=
  GroupShape.writeAll_appends (fun _ _ _ => (NumberField.puts rfl _).fills)
    (fun _ _ => length_numberBytes _ _) (Nat.zero_le _) few (by omega)

theorem read_scans (few : order.prices.length ≤ 10) (short : order.noteBytes.length ≤ 1073741824)
    (view : MessageView) :
    Scans version (read view) view.offset order.block
      (order.fillBytes ++ sizedBytes order.noteBytes) order := by
  have prices : Reads version (fills.readAll readPrice) order.fillBytes order.prices :=
    GroupShape.readAll_reads_items (Nat.zero_le _)
      (fun price _ view => (readPrice_gets price view).scans) (fun _ _ => length_numberBytes _ _)
      (by decide) (Nat.lt_of_le_of_lt few (by decide))
  have note : Reads version (noteField.read .utf8) (sizedBytes order.noteBytes) order.note :=
    VarField.reads_utf8 (Nat.zero_le _) (Nat.lt_of_le_of_lt short (by decide))
  refine Gets.bind_reads (NumberField.gets (Nat.zero_le _) rfl order.quantity.toNat_lt) ?_
  refine prices.bind ?_
  rw [UInt32.ofNat_toNat]
  exact note.map fun note => (⟨order.quantity, order.prices, note⟩ : Order)

/-- Writes what stands behind the block of an order. -/
def writeTail (order : Order) : Codec Unit := do
  fills.writeAll order.prices writePrice
  noteField.write .utf8 order.note

theorem writeTail_leaves (few : order.prices.length ≤ 10)
    (short : order.noteBytes.length ≤ 1073741824) :
    Leaves order.writeTail (order.fillBytes ++ sizedBytes order.noteBytes) (.ok ()) :=
  (fills_appends few).bind_leaves (VarField.appends rfl short).leaves

theorem write_ends {tail : List UInt8} {outcome : Outcome CodecError Unit}
    (leaves : Leaves order.writeTail tail outcome) (view : MessageView) :
    Ends (order.write view) view.offset order.block tail outcome :=
  (NumberField.puts rfl _).bind_leaves leaves

theorem length_block (order : Order) : order.block.length = shape.blockLength :=
  length_numberBytes _ _

/-- How writing an order into a buffer that is long enough for all of it ends. -/
structure EncodesIn (order : Order) (buffer : Buffer) : Prop where
  fits : order.prices.length ≤ 10 → order.noteBytes.length ≤ 1073741824 →
    ∃ after, order.encode.run (fresh buffer) = (.ok order.fullLength, after) ∧
      after.buffer.toList.drop order.fullLength = buffer.toList.drop order.fullLength ∧
      decode.run (fresh after.buffer) = (.ok order, after)
  tooMany : 10 < order.prices.length →
    ∃ after, order.encode.run (fresh buffer) = (.error (.refused
        (.countOutOfRange "fills" (min order.prices.length 65535) 0 10)), after) ∧
      after.buffer.toList.drop 12 = buffer.toList.drop 12
  tooLong : order.prices.length ≤ 10 → 1073741824 < order.noteBytes.length →
    ∃ after, order.encode.run (fresh buffer) = (.error (.refused
        (.lengthExceedsMaximum "note" order.noteBytes.length 1073741824)), after) ∧
      after.buffer.toList.drop (16 + 2 * order.prices.length) =
        buffer.toList.drop (16 + 2 * order.prices.length)

theorem encodesIn {buffer : Buffer} (room : order.fullLength ≤ buffer.capacity) :
    order.EncodesIn buffer where
  fits few short := by
    have small := fullLength_lt few short
    obtain ⟨run, unchanged⟩ := MessageShape.run_encode (write_ends (writeTail_leaves few short))
      order.length_block order.length_tail room small
    refine ⟨_, run, unchanged,
      MessageShape.run_decodeByHeader (read_scans few short) order.length_block ?_ buffer ?_⟩
    · rw [MessageShape.length_message order.length_block]
      show 12 + _ < wordBound
      rwa [order.length_tail]
    · decide
  tooMany many := by
    have beyond : fills.greatestCount < min order.prices.length 65535 := by
      show 10 < _
      omega
    have leaves : Leaves order.writeTail [] _ :=
      (GroupShape.writeAll_leaves_of_count beyond).bind_of_error
    rw [fullLength] at room
    exact ⟨_, MessageShape.run_encode (write_ends leaves) order.length_block rfl
      (by show 12 ≤ _; omega) (by decide)⟩
  tooLong few long := by
    have leaves : Leaves order.writeTail (order.fillBytes ++ []) _ :=
      (fills_appends few).bind_leaves (VarField.put_leaves_of_length long)
    have length : 12 + (order.fillBytes ++ []).length = 16 + 2 * order.prices.length := by
      rw [List.append_nil, length_fillBytes]
      omega
    rw [fullLength] at room
    exact ⟨_, MessageShape.run_encode (write_ends leaves) order.length_block length (by omega)
      (by rw [wordBound]; omega)⟩

theorem encode_neverExhausts (order : Order) : NeverExhausts order.encode := by
  refine shape.encode_neverExhausts
    fun view => (putNumber_firm _ _ _).neverExhausts.bind fun _ => ?_
  have prices : NeverExhausts (fills.writeAll order.prices writePrice) :=
    GroupShape.writeAll_neverExhausts (fun _ _ => putNumber_firm _ _ _) (by decide) _
  exact prices.bind fun _ => (encodeText_neverExhausts _ _).bind (noteField.put_neverExhausts ·)

end Order

/-! ### Service visits -/

namespace Service

/-- The bytes of the block of a service visit. -/
def block (service : Service) : List UInt8 :=
  numberBytes .uint16 service.mileage.toNat ++ (numberBytes .char service.grade.toNat ++
    (service.extras.bytes ++ service.engine.bytes))

/-- The bytes of the odometer at a stop. -/
def odometerBytes (odometer : UInt16) : List UInt8 := numberBytes .uint16 odometer.toNat

/-- The bytes of the group of stops. -/
def stopBytes (service : Service) : List UInt8 :=
  dimensionBytes stops.blockLength service.odometers.length ++
    repetitions odometerBytes (fun _ => []) service.odometers

/-- The number of bytes of a service visit behind its header. -/
def fullLength (service : Service) : Nat :=
  8 + 10 + 4 + 2 * service.odometers.length + 4 + service.remark.length

/-- Reads the stops and the remark of a service visit as if it had been written in the given
version. -/
def decodeAtVersion (version : Nat) : Codec (List UInt16 × List UInt8) := do
  let _ ← openAtVersion version
  let odometers ← stops.readAll readOdometer
  let remark ← remarkField.bytes
  pure (odometers, remark)

variable {service : Service}

theorem length_block (service : Service) : service.block.length = shape.blockLength := by
  simp only [block, Extras.bytes, Engine.bytes, List.length_append, length_numberBytes,
    length_padded]
  rfl

theorem length_stopBytes (service : Service) :
    service.stopBytes.length = 4 + 2 * service.odometers.length := by
  rw [stopBytes, List.length_append, length_dimensionBytes, length_repetitions 2, Nat.mul_comm]
  · rfl
  · exact fun odometer _ => length_numberBytes _ _

theorem readOdometer_gets (odometer : UInt16) (view : GroupView) :
    Gets version (readOdometer view) view.offset (odometerBytes odometer) odometer := by
  have found : Gets version (odometerField.read view.offset) view.offset (odometerBytes odometer)
      odometer.toNat := NumberField.gets (Nat.zero_le _) rfl odometer.toNat_lt
  have read := found.map UInt16.ofNat
  rw [UInt16.ofNat_toNat] at read
  exact read

theorem stops_appends (few : service.odometers.length ≤ 65534) :
    Appends (stops.writeAll service.odometers writeOdometer) service.stopBytes :=
  GroupShape.writeAll_appends (fun _ _ _ => (NumberField.puts rfl _).fills)
    (fun _ _ => length_numberBytes _ _) (Nat.zero_le _) few (by omega)

/-- Writes what stands behind the block of a service visit. -/
def writeTail (service : Service) : Codec Unit := do
  stops.writeAll service.odometers writeOdometer
  remarkField.put service.remark

/-- The block is written field by field, the extras and the engine where their views say. -/
theorem write_ends (ascii : Text.IsAscii service.engine.manufacturerCode) {tail : List UInt8}
    {outcome : Outcome CodecError Unit} (leaves : Leaves service.writeTail tail outcome)
    (view : MessageView) : Ends (service.write view) view.offset service.block tail outcome := by
  refine (NumberField.puts rfl _).bind_ends ((NumberField.puts rfl _).bind_ends ?_)
  refine .after_view ((service.extras.write_puts _).bind_ends ?_) fun small =>
    extrasField.run_view small
  refine .after_view ((Engine.write_puts ascii _).bind_leaves leaves) fun small =>
    engineField.run_view small

theorem run_decodeAtVersion (few : service.odometers.length ≤ 65534)
    (short : service.remark.length ≤ 8) (buffer : Buffer) :
    (decodeAtVersion 1).run (fresh (shape.wrote (shape.message service.block
        (service.stopBytes ++ sizedBytes service.remark)) buffer).buffer) =
      (.ok (service.odometers, service.remark), shape.wrote (shape.message service.block
        (service.stopBytes ++ sizedBytes service.remark)) buffer) := by
  have odometers : Reads shape.version (stops.readAll readOdometer) service.stopBytes
      service.odometers :=
    GroupShape.readAll_reads_items (by decide)
      (fun odometer _ view => (readOdometer_gets odometer view).scans)
      (fun _ _ => length_numberBytes _ _) (by decide) (Nat.lt_of_le_of_lt few (by decide))
  have remark : Reads shape.version remarkField.bytes (sizedBytes service.remark) service.remark :=
    VarField.bytes_reads (Nat.zero_le _) (Nat.lt_of_le_of_lt short (by decide))
  have reads : Reads shape.version (do
      let odometers ← stops.readAll readOdometer
      let remark ← remarkField.bytes
      pure (odometers, remark)) (service.stopBytes ++ sizedBytes service.remark)
      (service.odometers, service.remark) :=
    odometers.bind (remark.map fun remark => (service.odometers, remark))
  refine MessageShape.run_decode (fun view => reads.scans view.offset service.block)
    service.length_block ?_ buffer
  rw [MessageShape.length_message service.length_block, List.length_append, length_stopBytes,
    length_sizedBytes, VarField.headerLength, wordBound]
  show 18 + _ < _
  omega

/-- How writing a service visit into a buffer that is long enough for all of it ends. -/
structure EncodesIn (service : Service) (buffer : Buffer) : Prop where
  fits : service.odometers.length ≤ 65534 → service.remark.length ≤ 8 →
    ∃ after, service.encode.run (fresh buffer) = (.ok service.fullLength, after) ∧
      after.buffer.toList.drop service.fullLength = buffer.toList.drop service.fullLength ∧
      (decodeAtVersion 1).run (fresh after.buffer) =
        (.ok (service.odometers, service.remark), after)
  tooMany : 65534 < service.odometers.length →
    ∃ after, service.encode.run (fresh buffer) = (.error (.refused
        (.countOutOfRange "stops" (min service.odometers.length 65535) 0 65534)), after) ∧
      after.buffer.toList.drop 18 = buffer.toList.drop 18
  tooLong : service.odometers.length ≤ 65534 → 8 < service.remark.length →
    ∃ after, service.encode.run (fresh buffer) = (.error (.refused
        (.lengthExceedsMaximum "remark" service.remark.length 8)), after) ∧
      after.buffer.toList.drop (22 + 2 * service.odometers.length) =
        buffer.toList.drop (22 + 2 * service.odometers.length)

theorem encodesIn (ascii : Text.IsAscii service.engine.manufacturerCode) {buffer : Buffer}
    (room : service.fullLength ≤ buffer.capacity) : service.EncodesIn buffer where
  fits few short := by
    have leaves : Leaves service.writeTail (service.stopBytes ++ sizedBytes service.remark) _ :=
      (stops_appends few).bind_leaves (VarField.put_appends short).leaves
    have length : 18 + (service.stopBytes ++ sizedBytes service.remark).length =
        service.fullLength := by
      rw [List.length_append, length_stopBytes, length_sizedBytes, fullLength,
        VarField.headerLength]
      omega
    have small : service.fullLength < wordBound := by
      rw [fullLength, wordBound]
      omega
    obtain ⟨run, unchanged⟩ :=
      MessageShape.run_encode (write_ends ascii leaves) service.length_block length room small
    exact ⟨_, run, unchanged, run_decodeAtVersion few short buffer⟩
  tooMany many := by
    have beyond : stops.greatestCount < min service.odometers.length 65535 := by
      show 65534 < _
      omega
    have leaves : Leaves service.writeTail [] _ :=
      (GroupShape.writeAll_leaves_of_count beyond).bind_of_error
    rw [fullLength] at room
    exact ⟨_, MessageShape.run_encode (write_ends ascii leaves) service.length_block rfl
      (by show 18 ≤ _; omega) (by decide)⟩
  tooLong few long := by
    have leaves : Leaves service.writeTail (service.stopBytes ++ []) _ :=
      (stops_appends few).bind_leaves (VarField.put_leaves_of_length long)
    have length : 18 + (service.stopBytes ++ []).length = 22 + 2 * service.odometers.length := by
      rw [List.append_nil, length_stopBytes]
      omega
    rw [fullLength] at room
    exact ⟨_, MessageShape.run_encode (write_ends ascii leaves) service.length_block length
      (by omega) (by rw [wordBound]; omega)⟩

/-- A service visit is written without an error exactly when it keeps to both bounds. -/
theorem EncodesIn.ok_iff {buffer : Buffer} (encodes : service.EncodesIn buffer) :
    (∃ length after, service.encode.run (fresh buffer) = (.ok length, after)) ↔
      service.odometers.length ≤ 65534 ∧ service.remark.length ≤ 8 := by
  constructor
  · rintro ⟨length, after, done⟩
    by_cases few : service.odometers.length ≤ 65534
    · refine ⟨few, Nat.le_of_not_lt fun long => ?_⟩
      obtain ⟨_, run, _⟩ := encodes.tooLong few long
      rw [run] at done
      cases done
    · obtain ⟨_, run, _⟩ := encodes.tooMany (Nat.lt_of_not_le few)
      rw [run] at done
      cases done
  · rintro ⟨few, short⟩
    obtain ⟨after, run, _⟩ := encodes.fits few short
    exact ⟨_, after, run⟩

theorem encode_neverExhausts (service : Service) : NeverExhausts service.encode := by
  have extras (view : SetView) : Firm (service.extras.write view) := by
    have change (bit : Nat) (value : Bool) : Firm (view.change bit value) :=
      (getNumber_firm _ _).bind fun _ => putNumber_firm _ _ _
    exact (putNumber_firm _ _ _).bind fun _ => (change _ _).bind fun _ => (change _ _).bind fun _ =>
      change _ _
  have code (base : Nat) (source : List UInt8) :
      Firm (Engine.manufacturerCodeField.put base source) := by
    refine (Firm.putBytes _ _).bind fun _ => ?_
    rw [fill_eq_putBytes]
    exact .putBytes _ _
  have engine (view : CompositeView) : NeverExhausts (service.engine.write view) := by
    refine (putNumber_firm _ _ _).neverExhausts.bind fun _ => ?_
    refine (putNumber_firm _ _ _).neverExhausts.bind fun _ => ?_
    exact (encodeText_neverExhausts _ _).bind fun source => (code view.offset source).neverExhausts
  have odometers : NeverExhausts (stops.writeAll service.odometers writeOdometer) :=
    GroupShape.writeAll_neverExhausts (fun _ _ => putNumber_firm _ _ _) (by decide) _
  refine shape.encode_neverExhausts
    fun view => (putNumber_firm _ _ _).neverExhausts.bind fun _ => ?_
  refine (putNumber_firm _ _ _).neverExhausts.bind fun _ => ?_
  refine (Firm.bind (Firm.addSize _ _) fun _ => .pure _).neverExhausts.bind fun set => ?_
  refine (extras set).neverExhausts.bind fun _ => ?_
  refine (Firm.bind (Firm.addSize _ _) fun _ => .pure _).neverExhausts.bind fun composite => ?_
  exact (engine composite).bind fun _ => odometers.bind fun _ => remarkField.put_neverExhausts _

end Service

/-! ### Both messages -/

/-- **Orders and service visits are written exactly within their bounds.** In a buffer that is long
enough for all of it, an order with at most ten fills and a note of at most 2³⁰ bytes is written
whole, the bytes behind it stay, and reading it by its header gives it back; with more fills the
count is refused, and only the header and the block have been written. The same goes for a service
visit with at most 65534 stops and a remark of at most eight bytes, where a longer remark is refused
after the stops. In no buffer is either of them refused for want of a repetition. -/
theorem encoding_ends_at_bounds (buffer : Buffer) :
    (∀ order : Order, order.fullLength ≤ buffer.capacity → order.EncodesIn buffer) ∧
    (∀ odometers remark, (Service.sample odometers remark).fullLength ≤ buffer.capacity →
      (Service.sample odometers remark).EncodesIn buffer ∧
        ((∃ length after,
          (Service.sample odometers remark).encode.run (fresh buffer) = (.ok length, after)) ↔
            odometers.length ≤ 65534 ∧ remark.length ≤ 8)) ∧
    (∀ order : Order, NeverExhausts order.encode) ∧
    ∀ odometers remark, NeverExhausts (Service.sample odometers remark).encode := by
  refine ⟨fun order room => Order.encodesIn room, fun odometers remark room => ?_,
    Order.encode_neverExhausts, fun odometers remark => Service.encode_neverExhausts _⟩
  have ascii : Text.IsAscii (Service.sample odometers remark).engine.manufacturerCode := by
    show Text.IsAscii "VTC"
    decide
  have encodes : (Service.sample odometers remark).EncodesIn buffer := Service.encodesIn ascii room
  exact ⟨encodes, encodes.ok_iff⟩

/-- A buffer with room for a short order or visit. -/
def shortBuffer : Buffer := .ofList (List.replicate 48 170)

theorem shortBuffer_encoding_ends :
    (∃ after, (⟨42, [1, -2, 3], "abc"⟩ : Order).encode.run (fresh shortBuffer) = (.ok 29, after) ∧
      Order.decode.run (fresh after.buffer) = (.ok ⟨42, [1, -2, 3], "abc"⟩, after)) ∧
    (∃ after, (Service.sample [7, 9] [1, 2, 3]).encode.run (fresh shortBuffer) = (.ok 33, after) ∧
      (Service.decodeAtVersion 1).run (fresh after.buffer) = (.ok ([7, 9], [1, 2, 3]), after)) ∧
    ∃ after, (⟨42, List.replicate 11 5, ""⟩ : Order).encode.run (fresh shortBuffer) =
      (.error (.refused (.countOutOfRange "fills" 11 0 10)), after) := by
  obtain ⟨orders, visits, _, _⟩ := encoding_ends_at_bounds shortBuffer
  have room : shortBuffer.capacity = 48 := by decide +kernel
  have length : (⟨42, [1, -2, 3], "abc"⟩ : Order).fullLength = 29 := by decide +kernel
  obtain ⟨after, written, _, read⟩ :=
    (orders ⟨42, [1, -2, 3], "abc"⟩ (by rw [room, length]; decide)).fits (by decide)
      (by decide +kernel)
  obtain ⟨final, visited, _, reread⟩ :=
    (visits [7, 9] [1, 2, 3] (by rw [room]; decide)).1.fits (by decide) (by decide)
  obtain ⟨ended, refused, _⟩ := (orders ⟨42, List.replicate 11 5, ""⟩
    (by rw [room]; decide +kernel)).tooMany (by decide)
  rw [length] at written
  exact ⟨⟨after, written, read⟩, ⟨final, visited, reread⟩, ended, refused⟩

end Demo

end Sbe
