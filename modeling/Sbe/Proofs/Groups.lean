import Sbe.Codec.Message
import Sbe.Proofs.Fields

/-!
**The bytes of groups and messages.**

A group is its dimensions and one repetition after another; a repetition is a block followed by the
bytes of its own groups and fields of variable length. What is known of one repetition carries over
to the group by induction on the repetitions.

* `GroupShape.writeAll_appends`: writing a group;
* `GroupShape.readAll_reads`: reading a group, whose blocks may be longer than this schema knows;
* `MessageShape.run_openWithHeader`, `MessageShape.run_openByHeader`: opening a message.
-/

namespace Sbe.Codec

variable {α β : Type} {version : Nat}

/-! ### Repetitions -/

/-- The bytes of a group, given the block and the tail of each repetition. -/
def repetitions (block tail : α → List UInt8) (items : List α) : List UInt8 :=
  items.flatMap fun item => block item ++ tail item

theorem repetitions_cons (block tail : α → List UInt8) (item : α) (rest : List α) :
    repetitions block tail (item :: rest) =
      block item ++ tail item ++ repetitions block tail rest :=
  List.flatMap_cons ..

theorem length_repetitions_le {block tail : α → List UInt8} {items : List α} {most : Nat}
    (bounded : ∀ item ∈ items, (block item).length + (tail item).length ≤ most) :
    (repetitions block tail items).length ≤ items.length * most := by
  induction items with
  | nil => exact Nat.zero_le _
  | cons item rest ih =>
    obtain ⟨first, later⟩ := List.forall_mem_cons.mp bounded
    have others := ih later
    rw [repetitions_cons, List.length_append, List.length_append, List.length_cons, Nat.succ_mul]
    omega

/-- The view of the next repetition. -/
def GroupView.after (view : GroupView) (start : Nat) : GroupView :=
  { view with taken := view.taken + 1, offset := start }

theorem GroupView.blockLength_after (view : GroupView) (start : Nat) :
    (view.after start).blockLength = view.blockLength := rfl

theorem GroupView.run_next {view : GroupView} {wire : Wire} (more : view.taken < view.count)
    (small : wire.cursor.limit + view.blockLength < wordBound) :
    view.next.run wire = (.ok (view.after wire.cursor.limit), wire.advance view.blockLength) := by
  rw [next_eq, hasNext, if_pos (decide_eq_true more), run_bind_of_ok (run_limit wire),
    run_bind_of_ok (run_addSize small wire), run_bind_of_ok (run_setLimit_add wire _)]
  rfl

/-- One repetition is written as its block and its tail, and the next one starts behind them. -/
theorem GroupView.run_write_step {work : GroupView → Codec Unit} {further : GroupView → Codec β}
    {view : GroupView} {block tail : List UInt8} {wire : Wire}
    (fills : ∀ view : GroupView, Fills (work view) view.offset block tail)
    (size : block.length = view.blockLength) (more : view.taken < view.count)
    (room : wire.cursor.limit + (block ++ tail).length ≤ wire.buffer.capacity)
    (small : wire.cursor.limit + (block ++ tail).length < wordBound) :
    (view.next >>= fun view => work view >>= fun _ => further view).run wire =
      (further (view.after wire.cursor.limit)).run (wire.append (block ++ tail)) := by
  rw [List.length_append, size] at room small
  have filled := fills (view.after wire.cursor.limit) (wire.advance view.blockLength)
    (by rw [size]; exact Nat.le_refl _) (by rw [Wire.limit_advance, Wire.buffer_advance]; omega)
    (by rw [Wire.limit_advance]; omega)
  rw [run_bind_of_ok (run_next more (by omega)), run_bind_of_ok filled, ← Wire.append_append,
    ← size]
  rfl

theorem GroupView.writeEach_appends {work : GroupView → α → Codec Unit}
    {block tail : α → List UInt8} {blockLength : Nat} {items : List α}
    (each : ∀ item ∈ items, ∀ view : GroupView, Fills (work view
      item) view.offset (block item) (tail item))
    (sizes : ∀ item ∈ items, (block item).length = blockLength) {view : GroupView}
    (length : view.blockLength = blockLength) (enough : view.taken + items.length ≤ view.count) :
    Appends (view.writeEach work items) (repetitions block tail items) := by
  induction items generalizing view with
  | nil =>
    rw [writeEach]
    exact .pure
  | cons item rest ih =>
    obtain ⟨first, later⟩ := List.forall_mem_cons.mp each
    obtain ⟨size, laterSizes⟩ := List.forall_mem_cons.mp sizes
    rw [List.length_cons] at enough
    intro wire room small
    rw [repetitions_cons, List.length_append] at room small
    -- the view of the rest starts at the limit, which only the wire knows
    have left : (view.after wire.cursor.limit).taken + rest.length ≤ view.count := by
      show view.taken + 1 + rest.length ≤ view.count
      omega
    have written := ih later laterSizes ((view.blockLength_after _).trans length) left
    rw [writeEach, run_write_step first (size.trans length.symm) (by omega) (by omega) (by omega),
      written, repetitions_cons, Wire.append_append]
    · rw [Wire.limit_append, Wire.capacity_append]
      omega
    · rw [Wire.limit_append]
      omega

/-- One repetition is read from its block and its tail, and the next one starts behind them. -/
theorem GroupView.run_read_step {work : GroupView → Codec α} {further : GroupView → α → Codec β}
    {view : GroupView} {block tail : List UInt8} {value : α} {wire : Wire}
    (scans : ∀ view : GroupView, Scans version (work view) view.offset block tail value)
    (size : block.length = view.blockLength) (more : view.taken < view.count)
    (same : wire.cursor.version = version)
    (holds : wire.buffer.Holds wire.cursor.limit (block ++ tail))
    (small : wire.cursor.limit + (block ++ tail).length < wordBound) :
    (view.next >>= fun view => work view >>= further view).run wire =
      (further (view.after wire.cursor.limit) value).run (wire.advance (block ++ tail).length) := by
  rw [List.length_append, size] at small
  have tailHolds := holds.right
  rw [size] at tailHolds
  have scanned :=
    scans (view.after wire.cursor.limit) (wire.advance view.blockLength) same holds.left
      (by rw [size]; show wire.cursor.limit + _ < _; omega) tailHolds
      (by rw [Wire.limit_advance]; omega)
  rw [run_bind_of_ok (run_next more (by omega)), run_bind_of_ok scanned, Wire.advance_advance,
    List.length_append, size]

theorem GroupView.forEachUpTo_reads {work : GroupView → Codec β} {block tail : α → List UInt8}
    {value : α → β} {blockLength : Nat} {items : List α}
    (each : ∀ item ∈ items, ∀ view : GroupView,
      Scans version (work view) view.offset (block item) (tail item) (value item))
    (sizes : ∀ item ∈ items, (block item).length = blockLength) {view : GroupView}
    (length : view.blockLength = blockLength) (enough : view.taken + items.length ≤ view.count) :
    Reads version (view.forEachUpTo work items.length) (repetitions block tail items)
      (items.map value) := by
  induction items generalizing view with
  | nil => exact fun _ _ _ _ => rfl
  | cons item rest ih =>
    obtain ⟨first, later⟩ := List.forall_mem_cons.mp each
    obtain ⟨size, laterSizes⟩ := List.forall_mem_cons.mp sizes
    rw [List.length_cons] at enough
    intro wire same holds small
    rw [repetitions_cons] at holds small ⊢
    rw [List.length_append] at small
    have more : view.taken < view.count := by omega
    have left : (view.after wire.cursor.limit).taken + rest.length ≤ view.count := by
      show view.taken + 1 + rest.length ≤ view.count
      omega
    have read := ih later laterSizes ((view.blockLength_after _).trans length) left
      (wire.advance (block item ++ tail item).length) same holds.right
      (by rw [Wire.limit_advance]; omega)
    rw [List.length_cons, forEachUpTo, hasNext, if_pos (decide_eq_true more),
      run_read_step first (size.trans length.symm) more same holds.left (by omega),
      run_bind_of_ok read, run_pure, Wire.advance_advance, ← List.length_append, List.map_cons]

/-! ### Groups -/

/-- The bytes in front of the repetitions of a group. -/
def dimensionBytes (blockLength count : Nat) : List UInt8 :=
  numberBytes .uint16 blockLength ++ numberBytes .uint16 count

theorem length_dimensionBytes (blockLength count : Nat) :
    (dimensionBytes blockLength count).length = GroupShape.headerSize := by
  rw [dimensionBytes, List.length_append, length_numberBytes, length_numberBytes]
  rfl

namespace GroupShape

variable {shape : GroupShape}

theorem run_openWrite {count : Nat} {wire : Wire} (least : shape.leastCount ≤ count)
    (greatest : count ≤ shape.greatestCount)
    (room : wire.cursor.limit + headerSize ≤ wire.buffer.capacity)
    (small : wire.cursor.limit + headerSize < wordBound) :
    (shape.openWrite count).run wire =
      (.ok { name := shape.name, blockLength := shape.blockLength, count },
        wire.append (dimensionBytes shape.blockLength count)) := by
  have dimensions := (putNumber_puts .uint16 wire.cursor.limit shape.blockLength).bind
    (putNumber_puts .uint16 (wire.cursor.limit + 2) count)
  have done := dimensions wire
    (by rw [← dimensionBytes, length_dimensionBytes]; exact room)
    (by rw [← dimensionBytes, length_dimensionBytes]; exact small)
  rw [openWrite, if_pos ⟨least, greatest⟩, run_bind_of_ok (run_limit wire)]
  rw [← bind_assoc, run_bind_of_ok done, run_bind_of_ok (run_addSize small _)]
  rfl

theorem openRead_reads {blockLength count : Nat} (known : shape.since ≤ version)
    (lengthFits : blockLength < patternCount 2) (countFits : count < patternCount 2) :
    Reads version shape.openRead (dimensionBytes blockLength count)
      { name := shape.name, blockLength, count } := by
  refine Reads.of_known known fun wire same holds small => ?_
  rw [length_dimensionBytes] at small ⊢
  have lengthSmall : wire.cursor.limit + (numberBytes .uint16 blockLength).length < wordBound := by
    rw [length_numberBytes]
    exact Nat.lt_of_le_of_lt (Nat.add_le_add_left (by decide) _) small
  have length := getNumber_gets lengthFits wire.cursor.limit wire same holds.left lengthSmall
  have number := getNumber_gets countFits (wire.cursor.limit + 2) wire same holds.right small
  rw [run_bind_of_ok (run_limit wire), run_bind_of_ok length, run_bind_of_ok number,
    run_bind_of_ok (run_addSize small wire)]
  rfl

/-- A group is written as its dimensions and the repetitions of its items. -/
theorem writeAll_appends {work : GroupView → α → Codec Unit} {block tail : α → List UInt8}
    {items : List α}
    (each : ∀ item ∈ items, ∀ view : GroupView,
      Fills (work view item) view.offset (block item) (tail item))
    (sizes : ∀ item ∈ items, (block item).length = shape.blockLength)
    (least : shape.leastCount ≤ items.length) (greatest : items.length ≤ shape.greatestCount)
    (short : items.length ≤ 65535) :
    Appends (shape.writeAll items work)
      (dimensionBytes shape.blockLength items.length ++ repetitions block tail items) := by
  intro wire room small
  rw [List.length_append, length_dimensionBytes] at room small
  have repeated : Appends (GroupView.writeEach work
      { name := shape.name, blockLength := shape.blockLength, count := items.length } items)
      (repetitions block tail items) :=
    GroupView.writeEach_appends each sizes rfl (Nat.le_of_eq (Nat.zero_add _))
  rw [writeAll, Nat.min_eq_left short,
    run_bind_of_ok (run_openWrite least greatest (by omega) (by omega)), repeated]
  · rw [Wire.append_append]
  · rw [Wire.limit_append, Wire.capacity_append, length_dimensionBytes]
    omega
  · rw [Wire.limit_append, length_dimensionBytes]
    omega

/-- A group is read from its dimensions and the repetitions of its items. -/
theorem readAll_reads {work : GroupView → Codec β} {block tail : α → List UInt8} {value : α → β}
    {blockLength : Nat} {items : List α} (known : shape.since ≤ version)
    (each : ∀ item ∈ items, ∀ view : GroupView,
      Scans version (work view) view.offset (block item) (tail item) (value item))
    (sizes : ∀ item ∈ items, (block item).length = blockLength)
    (lengthFits : blockLength < patternCount 2) (countFits : items.length < patternCount 2) :
    Reads version (shape.readAll work)
      (dimensionBytes blockLength items.length ++ repetitions block tail items)
      (items.map value) := by
  refine (openRead_reads known lengthFits countFits).bind ?_
  exact GroupView.forEachUpTo_reads each sizes rfl (Nat.le_of_eq (Nat.zero_add _))

/-- A group is read back as the items that were written, where each of them is. -/
theorem readAll_reads_items {work : GroupView → Codec α} {block tail : α → List UInt8}
    {blockLength : Nat} {items : List α} (known : shape.since ≤ version)
    (each : ∀ item ∈ items, ∀ view : GroupView,
      Scans version (work view) view.offset (block item) (tail item) item)
    (sizes : ∀ item ∈ items, (block item).length = blockLength)
    (lengthFits : blockLength < patternCount 2) (countFits : items.length < patternCount 2) :
    Reads version (shape.readAll work)
      (dimensionBytes blockLength items.length ++ repetitions block tail items) items := by
  have reads : Reads version (shape.readAll work)
      (dimensionBytes blockLength items.length ++ repetitions block tail items) (items.map id) :=
    readAll_reads known each sizes lengthFits countFits
  rwa [List.map_id] at reads

end GroupShape

/-! ### Messages -/

namespace Header

/-- The bytes of a header. -/
def bytes (header : Header) : List UInt8 :=
  numberBytes .uint16 header.blockLength ++ (numberBytes .uint16 header.templateId ++
    (numberBytes .uint16 header.schemaId ++ numberBytes .uint16 header.version))

theorem length_bytes (header : Header) : header.bytes.length = headerType.encodedLength := by
  simp only [bytes, List.length_append, length_numberBytes]
  rfl

/-- Every number of a header has 16 bits. -/
def Fits (header : Header) : Prop :=
  header.blockLength < patternCount 2 ∧ header.templateId < patternCount 2 ∧
    header.schemaId < patternCount 2 ∧ header.version < patternCount 2

instance (header : Header) : Decidable header.Fits := inferInstanceAs (Decidable (_ ∧ _))

theorem write_puts (header : Header) (offset : Nat) :
    Puts (header.write offset) offset header.bytes :=
  (putNumber_puts _ _ _).bind ((putNumber_puts _ _ _).bind
    ((putNumber_puts _ _ _).bind (putNumber_puts _ _ _)))

theorem read_gets {header : Header} (fits : header.Fits) (offset : Nat) :
    Gets version (read offset) offset header.bytes header := by
  obtain ⟨blockFits, templateFits, schemaFits, versionFits⟩ := fits
  exact (getNumber_gets blockFits _).bind ((getNumber_gets templateFits _).bind
    ((getNumber_gets schemaFits _).bind ((getNumber_gets versionFits _).map _)))

end Header

namespace MessageShape

theorem run_openAt (shape : MessageShape) {offset blockLength : Nat}
    (small : offset + blockLength < wordBound) (version : Nat) (wire : Wire) :
    (shape.openAt offset blockLength version).run wire =
      (.ok ⟨shape, offset, blockLength⟩, ⟨wire.buffer, ⟨offset + blockLength, version⟩⟩) := by
  rw [openAt, run_bind_of_ok (run_addSize small wire)]
  rfl

theorem run_openWithHeader {shape : MessageShape} {offset : Nat} {wire : Wire}
    (room : offset + headerType.encodedLength ≤ wire.buffer.capacity)
    (small : offset + headerType.encodedLength + shape.blockLength < wordBound) :
    (shape.openWithHeader offset).run wire =
      (.ok ⟨shape, offset + headerType.encodedLength, shape.blockLength⟩,
        ⟨wire.buffer.overwrite offset shape.header.bytes,
          ⟨offset + headerType.encodedLength + shape.blockLength, shape.version⟩⟩) := by
  have written := shape.header.write_puts offset wire
    (by rw [Header.length_bytes]; exact room) (by rw [Header.length_bytes]; omega)
  rw [openWithHeader, run_bind_of_ok written,
    run_bind_of_ok (run_addSize (Nat.lt_of_le_of_lt (Nat.le_add_right _ _) small) _), openWrite,
    run_openAt shape small]
  rfl

theorem run_openByHeader {shape : MessageShape} {header : Header} {wire : Wire} (fits : header.Fits)
    (holds : wire.buffer.Holds 0 header.bytes)
    (small : headerType.encodedLength + header.blockLength < wordBound) :
    shape.openByHeader.run wire =
      (.ok ⟨shape, headerType.encodedLength, header.blockLength⟩,
        ⟨wire.buffer, ⟨headerType.encodedLength + header.blockLength, header.version⟩⟩) := by
  have read := Header.read_gets fits 0 wire rfl holds (by rw [Header.length_bytes]; omega)
  rw [openByHeader, run_bind_of_ok read, run_openAt shape small]

end MessageShape

theorem MessageView.run_encodedLength {view : MessageView} {wire : Wire}
    (behind : view.offset ≤ wire.cursor.limit) :
    view.encodedLength.run wire = (.ok (wire.cursor.limit - view.offset), wire) := by
  rw [encodedLength, run_bind_of_ok (run_limit wire), subSize, if_pos behind]
  rfl

end Sbe.Codec
