import Sbe.Proofs.Rendering
import Sbe.Proofs.ShortMessages

/-!
**The text of an order.**

What is shown of a message comes from its bytes: the members from the block, then the groups and the
fields of variable length as they follow each other. For an order that was written, the text can be
told from the order itself.

* `groupEntry_reads`: a group is shown as its repetitions;
* `MessageView.run_text_of_scans`, `MessageView.run_writtenText_of_scans`: a message whose bytes are
  known;
* `Order.body_scans`: the body of an order;
* `Order.encoding_shows_order`: an order that was written.
-/

namespace Sbe

namespace Codec

variable {α β : Type} {version : Nat}

/-! ### Entries -/

theorem Scans.map {work : Codec α} {index : Nat} {block tail : List UInt8} {value : α}
    (scans : Scans version work index block tail value) (image : α → β) :
    Scans version (work >>= fun found => pure (image found)) index block tail (image value) := by
  intro wire same holds below tailHolds small
  rw [run_bind_of_ok (scans wire same holds below tailHolds small)]
  rfl

theorem Reads.pure (value : α) : Reads version (pure value) [] value := fun _ _ _ _ => rfl

theorem mapM_singleton (work : α → Codec β) (item : α) :
    [item].mapM work = work item >>= fun value => pure [value] := by
  rw [List.mapM_cons]
  rfl

theorem NumberField.entry_gets {field : NumberField} {base index pattern : Nat}
    (known : field.since ≤ version) (place : base + field.offset = index)
    (fits : pattern < patternCount field.primitive.size) :
    Gets version (Member.entry base (.number field)) index (numberBytes field.primitive pattern)
      (field.name ++ "=" ++ field.primitive.shown pattern) := by
  rw [NumberField.entry_eq]
  exact (NumberField.gets known place fits).map _

/-- A group is shown as its repetitions, in their order. -/
theorem groupEntry_reads {shape : GroupShape} {block tail : α → List UInt8} {shown : α → String}
    {blockLength : Nat} {items : List α} (known : shape.since ≤ version)
    (each : ∀ item ∈ items, ∀ view : GroupView,
      Scans version (shape.text view) view.offset (block item) (tail item) (shown item))
    (sizes : ∀ item ∈ items, (block item).length = blockLength)
    (lengthFits : blockLength < patternCount 2) (countFits : items.length < patternCount 2) :
    Reads version (groupEntry shape)
      (dimensionBytes blockLength items.length ++ repetitions block tail items)
      (shape.name ++ "=[" ++ String.intercalate "," (items.map shown) ++ "]") := by
  rw [groupEntry_eq]
  exact (GroupShape.readAll_reads known each sizes lengthFits countFits).map _

theorem VarField.entry_reads_utf8 {field : VarField} {text : String}
    (known : field.since ≤ version) (charset : field.charset = some .utf8)
    (short : (Text.Utf8.encode text.toList).length < patternCount 4) :
    Reads version field.entry (sizedBytes (Text.Utf8.encode text.toList))
      (field.name ++ "=" ++ text) := by
  have shown : Reads version field.text (sizedBytes (Text.Utf8.encode text.toList)) text := by
    rw [VarField.text, charset]
    exact VarField.reads_utf8 known short
  rw [VarField.entry_eq]
  exact shown.map _

/-- A body is shown as its members, then its groups, then its fields of variable length. -/
theorem bodyText_scans {base : Nat} {members : List Member} {groups : List GroupShape}
    {varData : List VarField} {block front back : List UInt8}
    {memberEntries groupEntries varDataEntries : List String}
    (ofMembers : Gets version ((members.filter Member.isShown).mapM (Member.entry base)) base block
      memberEntries)
    (ofGroups : Reads version (groups.mapM groupEntry) front groupEntries)
    (ofVarData : Reads version (varData.mapM VarField.entry) back varDataEntries) :
    Scans version (bodyText base members groups varData) base block (front ++ back)
      (String.intercalate "|" (memberEntries ++ groupEntries ++ varDataEntries)) := by
  rw [bodyText_eq]
  exact ofMembers.bind_reads (ofGroups.bind (ofVarData.map _))

/-! ### Messages -/

namespace MessageView

variable {view : MessageView} {wire : Wire} {block tail : List UInt8} {shown : String}

theorem textFromBlock_scans (scans : Scans version view.body view.offset block tail shown) :
    Scans version view.textFromBlock view.offset block tail (view.line version shown) := by
  intro wire same block below tail room
  have acting : Codec.version.run wire = (.ok version, wire) := same ▸ rfl
  rw [textFromBlock, run_bind_of_ok acting, run_bind_of_ok (scans wire same block below tail room)]
  rfl

/-- A message is shown as the bytes at its place say. -/
theorem run_text_of_scans (scans : Scans wire.cursor.version view.body view.offset block tail shown)
    (size : block.length = view.blockLength) (holds : wire.buffer.Holds view.offset (block ++ tail))
    (small : view.offset + (block ++ tail).length < wordBound) :
    view.text.run wire = (.ok (view.line wire.cursor.version shown), wire) := by
  have behind := holds.right
  rw [List.length_append] at small
  rw [size] at small behind
  have found :=
    textFromBlock_scans scans ⟨wire.buffer, ⟨view.offset + view.blockLength, wire.cursor.version⟩⟩
      rfl holds.left (by omega) behind (by show _ + _ + _ < _; omega)
  rw [← run_rewoundText (by omega)] at found
  exact run_text_of_rewound found

/-- A message that is being written is shown in the version of its schema. -/
theorem run_writtenText_of_scans
    (scans : Scans view.shape.version view.body view.offset block tail shown)
    (size : block.length = view.shape.blockLength)
    (holds : wire.buffer.Holds view.offset (block ++ tail))
    (small : view.offset + (block ++ tail).length < wordBound) :
    view.writtenText.run wire =
      (.ok (line { view with blockLength := view.shape.blockLength } view.shape.version shown),
        wire) := by
  have room : view.offset + view.shape.blockLength < wordBound := by
    rw [List.length_append, size] at small
    omega
  have opened := view.shape.run_openAt room view.shape.version wire
  have found : (text { view with blockLength := view.shape.blockLength }).run
      ⟨wire.buffer, ⟨view.offset + view.shape.blockLength, view.shape.version⟩⟩ = _ :=
    run_text_of_scans scans size holds small
  show (((view.shape.openAt view.offset view.shape.blockLength view.shape.version >>= text).run
        wire).1, wire) = _
  rw [run_bind_of_ok opened, found]

end MessageView

end Codec

/-! ### Orders -/

namespace Demo.Order

open Sbe.Codec
open Sbe.Codec.MessageShape (fresh)

variable {version : Nat} {order : Order}

/-- The text of a price. -/
def priceText (price : Int16) : String := "(price=" ++ toString price.toInt ++ ")"

/-- The text of the fields of an order. -/
def fieldsText (order : Order) : String :=
  "quantity=" ++ toString order.quantity.toNat ++ "|fills=[" ++
    String.intercalate "," (order.prices.map priceText) ++ "]|note=" ++ order.note

/-- The text of an order. -/
def text (order : Order) : String :=
  "[Order](sbeTemplateId=2|sbeSchemaId=1|sbeSchemaVersion=1|sbeBlockLength=4):" ++ order.fieldsText

/-- The pattern of a price stands for the price, with its sign. -/
theorem value_price (price : Int16) : Primitive.int16.value price.toUInt16.toNat = price.toInt := by
  have count : Primitive.int16.patterns = 65536 := rfl
  have pattern : price.toUInt16.toNat = price.toBitVec.toNat := rfl
  have signed : price.toInt = price.toBitVec.toInt := rfl
  rw [Primitive.value, count, pattern, signed, BitVec.toInt_eq_toNat_cond]
  by_cases negative : 65536 ≤ 2 * price.toBitVec.toNat
  · rw [if_pos ⟨rfl, negative⟩, if_neg (Nat.not_lt.mpr negative)]
  · rw [if_neg (fun both => negative both.2), if_pos (Nat.lt_of_not_le negative)]

theorem price_scans (price : Int16) (view : GroupView) :
    Scans version (fills.text view) view.offset (priceBytes price) [] (priceText price) := by
  have entry : Gets version (Member.entry view.offset (.number priceField)) view.offset
      (priceBytes price) ("price=" ++ toString price.toInt) := by
    rw [← value_price]
    exact NumberField.entry_gets (Nat.zero_le _) rfl price.toUInt16.toNat_lt
  have members := entry.map fun entry => [entry]
  rw [← mapM_singleton] at members
  have groups : Reads version ([].mapM groupEntry) [] [] := .pure []
  have varData : Reads version ([].mapM VarField.entry) [] [] := .pure []
  have shown : [Member.number priceField] = [Member.number priceField].filter Member.isShown := rfl
  rw [shown] at members
  rw [GroupShape.text_eq]
  exact (bodyText_scans members groups varData).map fun body => "(" ++ body ++ ")"

theorem intercalate_entries (order : Order) :
    String.intercalate "|" (["quantity=" ++ toString order.quantity.toNat] ++
      ["fills=[" ++ String.intercalate "," (order.prices.map priceText) ++ "]"] ++
      ["note=" ++ order.note]) = order.fieldsText := by
  rw [fieldsText, ← String.toList_inj]
  simp

/-- The bytes of the group of fills and of the note. -/
def tail (order : Order) : List UInt8 := order.fillBytes ++ sizedBytes order.noteBytes

theorem body_scans (few : order.prices.length ≤ 10) (short : order.noteBytes.length ≤ 1073741824)
    (offset blockLength : Nat) :
    Scans version (MessageView.body ⟨shape, offset, blockLength⟩) offset order.block order.tail
      order.fieldsText := by
  have quantity : Gets version (Member.entry offset (.number quantityField)) offset order.block
      ("quantity=" ++ toString order.quantity.toNat) :=
    NumberField.entry_gets (Nat.zero_le _) rfl order.quantity.toNat_lt
  have prices : Reads version (groupEntry fills) order.fillBytes
      ("fills=[" ++ String.intercalate "," (order.prices.map priceText) ++ "]") :=
    groupEntry_reads (Nat.zero_le _) (fun price _ => price_scans price)
      (fun _ _ => length_numberBytes _ _) (by decide) (Nat.lt_of_le_of_lt few (by decide))
  have note : Reads version noteField.entry (sizedBytes order.noteBytes) ("note=" ++ order.note) :=
    VarField.entry_reads_utf8 (Nat.zero_le _) rfl (Nat.lt_of_le_of_lt short (by decide))
  have members := quantity.map fun entry => [entry]
  have groups := prices.map fun entry => [entry]
  have varData := note.map fun entry => [entry]
  rw [← mapM_singleton] at members groups varData
  rw [← intercalate_entries]
  exact bodyText_scans members groups varData

/-! ### Orders behind their headers -/

theorem line_eq (order : Order) (offset : Nat) :
    MessageView.line ⟨shape, offset, 4⟩ 1 order.fieldsText = order.text := by
  have start : "[" ++ "Order" ++ "](sbeTemplateId=" ++ toString 2 ++ "|sbeSchemaId=" ++
      toString 1 ++ "|sbeSchemaVersion=" ++ actingText 1 1 ++ "|sbeBlockLength=" ++
      actingText 4 4 ++ "):" =
    "[Order](sbeTemplateId=2|sbeSchemaId=1|sbeSchemaVersion=1|sbeBlockLength=4):" := by decide
  exact congrArg (· ++ order.fieldsText) start

theorem length_message (order : Order) :
    (shape.message order.block order.tail).length = order.fullLength := by
  rw [← length_tail]
  exact MessageShape.length_message order.length_block _

section

variable (few : order.prices.length ≤ 10) (short : order.noteBytes.length ≤ 1073741824)
include few short

theorem body_lt : 8 + (order.block ++ order.tail).length < wordBound := by
  have whole := order.length_message
  have small := fullLength_lt few short
  rw [MessageShape.message, List.length_append, Header.length_bytes] at whole
  exact whole ▸ small

variable {buffer : Buffer}

theorem run_text (holds : buffer.Holds 8 (order.block ++ order.tail)) (limit : Nat) :
    (⟨shape, 8, 4⟩ : MessageView).text.run ⟨buffer, ⟨limit, 1⟩⟩ =
      (.ok order.text, ⟨buffer, ⟨limit, 1⟩⟩) := by
  rw [← line_eq order 8]
  exact MessageView.run_text_of_scans (body_scans few short 8 4) order.length_block holds
    (body_lt few short)

/-- A writer shows the order that it has written, and goes on where it was. -/
theorem run_writtenText (holds : buffer.Holds 8 (order.block ++ order.tail)) (cursor : Cursor) :
    (⟨shape, 8, 4⟩ : MessageView).writtenText.run ⟨buffer, cursor⟩ =
      (.ok order.text, ⟨buffer, cursor⟩) := by
  rw [← line_eq order 8]
  exact MessageView.run_writtenText_of_scans (body_scans few short 8 4) order.length_block
    holds (body_lt few short)

/-- A reader that goes by the header shows the order behind it. -/
theorem run_openByHeader_text
    (holds : buffer.Holds 0 (shape.header.bytes ++ (order.block ++ order.tail))) :
    (shape.openByHeader >>= MessageView.text).run (fresh buffer) =
      (.ok order.text, ⟨buffer, ⟨12, 1⟩⟩) := by
  have fits : shape.header.Fits := by decide
  have opened : shape.openByHeader.run (fresh buffer) = (.ok ⟨shape, 8, 4⟩, ⟨buffer, ⟨12, 1⟩⟩) :=
    MessageShape.run_openByHeader fits holds.left (by decide)
  have behind := holds.right
  rw [Header.length_bytes] at behind
  rw [run_bind_of_ok opened, run_text few short behind]

end

/-- **An order that was written is shown as it is.** An order with at most ten fills and a note of
at most 2³⁰ bytes is written into every buffer that is long enough. Read by its header from any
buffer that begins with the bytes written, it is shown as its quantity, all its prices in order and
its note. The writer shows the same text when it is done. -/
theorem encoding_shows_order {buffer : Buffer} (few : order.prices.length ≤ 10)
    (short : order.noteBytes.length ≤ 1073741824) (room : order.fullLength ≤ buffer.capacity) :
    ∃ after, order.encode.run (fresh buffer) = (.ok order.fullLength, after) ∧
      (∀ received : Buffer,
        received.toList.take order.fullLength = after.buffer.toList.take order.fullLength →
        (shape.openByHeader >>= MessageView.text).run (fresh received) =
          (.ok order.text, ⟨received, ⟨12, 1⟩⟩)) ∧
      ExceptT.run (do
        let view ← shape.openWithHeader 0
        order.write view
        view.writtenText) (fresh buffer) = (.ok order.text, after) := by
  have small := fullLength_lt few short
  have whole := order.length_message
  have ends := write_ends (writeTail_leaves few short)
  obtain ⟨middle, opened, written⟩ :=
    MessageShape.run_write ends order.length_block (whole ▸ room) (whole ▸ small)
  obtain ⟨run, _⟩ := MessageShape.run_encode ends order.length_block order.length_tail room small
  have holds := shape.holds_message order.block order.tail buffer
  refine ⟨_, run, fun received same => run_openByHeader_text few short ?_, ?_⟩
  · have begins : received.toList.take order.fullLength = shape.message order.block order.tail := by
      rw [same, ← whole]
      exact (congrArg _ (Buffer.toList_ofList _)).trans List.take_left
    refine ⟨[], received.toList.drop order.fullLength, ?_, rfl⟩
    rw [List.nil_append, ← MessageShape.message, ← begins, List.take_append_drop]
  · have behind := holds.right
    rw [Header.length_bytes] at behind
    rw [run_bind_of_ok opened, run_bind_of_ok written]
    exact run_writtenText few short behind _

/-- An order with a negative price and a note outside ASCII. -/
def refund : Order := ⟨7, [1, -2, 300], "añ"⟩

theorem refund_shown :
    ∃ after, refund.encode.run (fresh (.ofList (List.replicate 40 0))) = (.ok 29, after) ∧
      (shape.openByHeader >>= MessageView.text).run (fresh after.buffer) =
        (.ok ("[Order](sbeTemplateId=2|sbeSchemaId=1|sbeSchemaVersion=1|sbeBlockLength=4):" ++
          "quantity=7|fills=[(price=1),(price=-2),(price=300)]|note=añ"), ⟨after.buffer,
            ⟨12, 1⟩⟩) := by
  have length : refund.fullLength = 29 := by decide +kernel
  have shown : refund.text =
      "[Order](sbeTemplateId=2|sbeSchemaId=1|sbeSchemaVersion=1|sbeBlockLength=4):" ++
        "quantity=7|fills=[(price=1),(price=-2),(price=300)]|note=añ" := by decide +kernel
  have few : refund.prices.length ≤ 10 := by decide
  have short : refund.noteBytes.length ≤ 1073741824 := by decide +kernel
  have room : refund.fullLength ≤ (Buffer.ofList (List.replicate 40 0)).capacity := by
    rw [length]
    decide +kernel
  obtain ⟨after, run, text, _⟩ := encoding_shows_order few short room
  rw [length] at run
  rw [shown] at text
  exact ⟨after, run, text after.buffer rfl⟩

end Demo.Order

end Sbe
