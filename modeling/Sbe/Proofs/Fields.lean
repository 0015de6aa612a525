import Sbe.Codec.Composite
import Sbe.Codec.VarData
import Sbe.Proofs.Charset
import Sbe.Proofs.Wire

/-!
**The bytes of single fields.**

Each kind of field puts certain bytes on the wire, and finds its value in the same bytes. A field
that is newer than a message is not among them, so readers assume that the version of the message
has the field.

* `NumberField.puts`, `NumberField.gets`: numbers, and in the same way arrays, texts and enums;
* `VarField.appends`, `VarField.reads`: fields of variable length.
-/

namespace Sbe.Codec

open Sbe.Text (Charset)

/-! ### Bytes and numbers -/

/-- The bytes of a number. -/
def numberBytes (primitive : Primitive) (pattern : Nat) : List UInt8 :=
  ByteOrder.littleEndian.bytes primitive.size pattern

@[simp] theorem length_numberBytes (primitive : Primitive) (pattern : Nat) :
    (numberBytes primitive pattern).length = primitive.size :=
  ByteOrder.bytes_length _ _ _

theorem putBytes_puts (index : Nat) (source : List UInt8) :
    Puts (putBytes index source) index source := by
  intro wire room _
  show (if wire.buffer.holds index source.length then _ else _) = _
  rw [Buffer.holds, if_pos (decide_eq_true room)]
  rfl

theorem fill_puts (index length : Nat) (value : UInt8) :
    Puts (fill index length value) index (List.replicate length value) := by
  intro wire room _
  rw [List.length_replicate] at room
  show (if wire.buffer.holds index length then _ else _) = _
  rw [Buffer.holds, if_pos (decide_eq_true room)]
  rfl

theorem putNumber_puts (primitive : Primitive) (index pattern : Nat) :
    Puts (putNumber primitive index pattern) index (numberBytes primitive pattern) :=
  putBytes_puts index _

variable {version : Nat}

theorem slice_gets {index length : Nat} {bytes : List UInt8} (size : bytes.length = length) :
    Gets version (slice index length) index bytes bytes := by
  intro wire _ holds _
  show (wire.buffer.slice index length, wire) = _
  rw [← size, holds.slice_eq]

theorem getNumber_gets {primitive : Primitive} {pattern : Nat}
    (fits : pattern < patternCount primitive.size) (index : Nat) :
    Gets version (getNumber primitive index) index (numberBytes primitive pattern) pattern := by
  have bytes : Gets version (slice index primitive.size) index (numberBytes primitive pattern)
      (numberBytes primitive pattern) := slice_gets (length_numberBytes primitive pattern)
  have number := bytes.map ByteOrder.littleEndian.number
  rwa [numberBytes, ByteOrder.number_bytes, Nat.mod_eq_of_lt fits] at number

theorem run_addSize {left right : Nat} (small : left + right < wordBound) (wire : Wire) :
    (ofOutcome (addSize left right)).run wire = (.ok (left + right), wire) := by
  rw [addSize, if_pos small]
  rfl

/-! ### Versions -/

theorem run_isOlder (since : Nat) (wire : Wire) :
    (isOlder since).run wire = (.ok (decide (wire.cursor.version < since)), wire) := rfl

/-- A message that has an element is read as if there were no other version. -/
theorem run_of_known {α : Type} {since : Nat} {wire : Wire} (known : since ≤ wire.cursor.version)
    (absent work : Codec α) :
    (isOlder since >>= fun older => if older then absent else work).run wire = work.run wire := by
  have newer : ¬ wire.cursor.version < since := Nat.not_lt.mpr known
  rw [run_bind_of_ok (run_isOlder since wire), decide_eq_false newer]
  rfl

theorem Gets.of_known {α : Type} {since index : Nat} (known : since ≤ version)
    {absent work : Codec α} {bytes : List UInt8} {value : α}
    (gets : Gets version work index bytes value) :
    Gets version (isOlder since >>= fun older => if older then absent else work) index bytes
      value := by
  intro wire same holds small
  rw [run_of_known (same ▸ known), gets wire same holds small]

theorem Reads.of_known {α : Type} {since : Nat} (known : since ≤ version) {absent work : Codec α}
    {bytes : List UInt8} {value : α} (reads : Reads version work bytes value) :
    Reads version (isOlder since >>= fun older => if older then absent else work) bytes value := by
  intro wire same holds small
  rw [run_of_known (same ▸ known), reads wire same holds small]

/-! ### Numbers and arrays -/

namespace NumberField

variable {field : NumberField} {base index : Nat}

theorem puts (place : base + field.offset = index) (pattern : Nat) :
    Puts (field.write base pattern) index (numberBytes field.primitive pattern) := by
  rw [← place]
  exact putNumber_puts _ _ _

theorem gets (known : field.since ≤ version) (place : base + field.offset = index) {pattern : Nat}
    (fits : pattern < patternCount field.primitive.size) :
    Gets version (field.read base) index (numberBytes field.primitive pattern) pattern := by
  rw [← place]
  exact (getNumber_gets fits _).of_known known

end NumberField

namespace ArrayField

variable {field : ArrayField} {base index element : Nat}

theorem run_testIndex (inside : element < field.length) (wire : Wire) :
    (field.testIndex element).run wire = (.ok (), wire) := by
  rw [testIndex, if_pos inside]
  rfl

theorem puts (inside : element < field.length) (place : field.elementIndex base element = index)
    (pattern : Nat) :
    Puts (field.writeAt base element pattern) index (numberBytes field.primitive pattern) := by
  intro wire room small
  rw [writeAt, run_bind_of_ok (run_testIndex inside wire), place]
  exact putNumber_puts _ _ _ wire room small

theorem gets (known : field.since ≤ version) (inside : element < field.length)
    (place : field.elementIndex base element = index) {pattern : Nat}
    (fits : pattern < patternCount field.primitive.size) :
    Gets version (field.readAt base element) index (numberBytes field.primitive pattern)
      pattern := by
  intro wire same holds small
  rw [readAt, run_bind_of_ok (run_testIndex inside wire), place]
  exact (getNumber_gets fits _).of_known known wire same holds small

/-- Writing elements from the first on puts them one after another. -/
theorem forM_puts (field : ArrayField) (base : Nat) (pattern : Nat → Nat) {count : Nat}
    (inside : count ≤ field.length) :
    Puts ((List.range count).forM fun element => field.writeAt base element (pattern element))
      (base + field.offset) ((List.range count).flatMap
        fun element => numberBytes field.primitive (pattern element)) := by
  induction count with
  | zero => exact .pure _
  | succ count ih =>
    have size : ((List.range count).flatMap fun element =>
        numberBytes field.primitive (pattern element)).length = count * field.primitive.size := by
      simp [List.length_flatMap, List.map_const']
    have last : field.elementIndex base count = base + field.offset +
        ((List.range count).flatMap fun element =>
          numberBytes field.primitive (pattern element)).length := by rw [size, elementIndex]
    have step := (puts inside last (pattern count)).bind (.pure _)
    have run := (ih (Nat.le_of_succ_le inside)).bind step
    rw [List.append_nil] at run
    rw [List.range_succ, List.flatMap_append, List.flatMap_singleton, List.forM_eq_forM,
      List.forM_append]
    exact run

end ArrayField

/-! ### Texts of fixed length -/

theorem run_encodeText {charset : Charset} {text : String} {source : List UInt8}
    (encoded : charset.encode text = .ok source) (wire : Wire) :
    (encodeText charset text).run wire = (.ok source, wire) := by
  rw [encodeText, encoded]
  rfl

/-- The bytes of a text in a field of fixed length, cut or padded with NUL. -/
def padded (length : Nat) (source : List UInt8) : List UInt8 :=
  source.take length ++ List.replicate (length - (source.take length).length) 0

@[simp] theorem length_padded (length : Nat) (source : List UInt8) :
    (padded length source).length = length := by
  rw [padded, List.length_append, List.length_replicate, List.length_take]
  omega

namespace TextField

variable {field : TextField} {base index : Nat} {text : String} {source : List UInt8}

theorem put_puts (place : base + field.offset = index) (source : List UInt8) :
    Puts (field.put base source) index (padded field.length source) := by
  rw [← place]
  exact (putBytes_puts _ _).bind (fill_puts _ _ _)

theorem puts (encoded : field.charset.encode text = .ok source)
    (place : base + field.offset = index) :
    Puts (field.write base text) index (padded field.length source) := by
  intro wire room small
  rw [write, run_bind_of_ok (run_encodeText encoded wire)]
  exact put_puts place source wire room small

theorem gets (known : field.since ≤ version) (place : base + field.offset = index)
    (source : List UInt8) :
    Gets version (field.read base) index (padded field.length source)
      (field.charset.decode (Text.beforeNul (source.take field.length))) := by
  have bytes : Gets version (slice index field.length) index (padded field.length source)
      (padded field.length source) := slice_gets (length_padded _ _)
  have text := bytes.map fun bytes => field.charset.decode (Text.beforeNul bytes)
  rw [← Text.beforeNul_append_replicate (source.take field.length)
    (field.length - (source.take field.length).length)]
  rw [← place] at text ⊢
  exact text.of_known known

end TextField

/-! ### Enums -/

/-- Every value of an enum has a bit pattern of its own that fits. -/
structure EnumType.IsDistinct (type : EnumType) : Prop where
  variants : (type.variants.map Prod.snd).Nodup
  null : type.null ∉ type.variants.map Prod.snd
  variantsFit : ∀ variant ∈ type.variants, variant.2 < patternCount type.primitive.size
  nullFits : type.null < patternCount type.primitive.size

namespace EnumValue

variable {type : EnumType}

theorem raw_lt (distinct : type.IsDistinct) (value : EnumValue type) :
    value.raw < patternCount type.primitive.size := by
  cases value with
  | null => exact distinct.nullFits
  | variant position => exact distinct.variantsFit _ (List.get_mem _ position)

/-- A value is told by its bit pattern. -/
theorem ofRaw_raw (distinct : type.IsDistinct) (value : EnumValue type) :
    ofRaw type value.raw = .ok value := by
  cases value with
  | null =>
    have absent : type.variants.findFinIdx? (fun variant => variant.2 == type.null) = none := by
      rw [List.findFinIdx?_eq_none_iff]
      intro variant member same
      exact distinct.null (List.mem_map.mpr ⟨variant, member, beq_iff_eq.mp same⟩)
    rw [ofRaw, raw, absent]
    exact if_pos rfl
  | variant position =>
    have first : type.variants.findFinIdx?
        (fun variant => variant.2 == (type.variants.get position).2) = some position := by
      rw [List.findFinIdx?_eq_some_iff]
      refine ⟨beq_self_eq_true _, fun other before same => ?_⟩
      have apart := List.pairwise_iff_getElem.mp (List.pairwise_map.mp distinct.variants) other
        position (Nat.lt_trans before position.isLt) position.isLt before
      exact apart (beq_iff_eq.mp same)
    rw [ofRaw, raw, first]

end EnumValue

namespace EnumField

variable {field : EnumField} {base index : Nat}

theorem puts (place : base + field.offset = index) (value : EnumValue field.type) :
    Puts (field.write base value) index (numberBytes field.type.primitive value.raw) := by
  rw [← place]
  exact putNumber_puts _ _ _

theorem gets (known : field.since ≤ version) (place : base + field.offset = index)
    (distinct : field.type.IsDistinct) (value : EnumValue field.type) :
    Gets version (field.read base) index (numberBytes field.type.primitive value.raw) value := by
  intro wire same holds small
  have raw : (field.readRaw base).run wire = (.ok value.raw, wire) := by
    rw [← place] at holds small
    exact (getNumber_gets (value.raw_lt distinct) _).of_known known wire same holds small
  rw [read, run_bind_of_ok raw]
  show (EnumValue.ofRaw field.type value.raw, wire) = _
  rw [EnumValue.ofRaw_raw distinct]

end EnumField

/-! ### Sets and composites -/

namespace SetView

/-- Changing a bit of a set that was just put is putting the changed set. -/
theorem change_puts {type : SetType} {offset : Nat} {work : Codec Unit} {raw : Nat}
    (puts : Puts work offset (numberBytes type.primitive raw))
    (fits : raw < patternCount type.primitive.size) (bit : Nat) (value : Bool) :
    Puts (work >>= fun _ => (⟨type, offset⟩ : SetView).change bit value) offset
      (numberBytes type.primitive (SetType.change raw bit value)) := by
  intro wire room small
  rw [length_numberBytes] at room small
  have put := puts wire (by rwa [length_numberBytes]) (by rwa [length_numberBytes])
  have found :
      (⟨type, offset⟩ : SetView).raw.run (wire.put offset (numberBytes type.primitive raw)) =
        (.ok raw, wire.put offset (numberBytes type.primitive raw)) :=
    getNumber_gets fits _ _ rfl (Buffer.holds_overwrite (by rwa [length_numberBytes]))
      (by rwa [length_numberBytes])
  rw [run_bind_of_ok put, change, run_bind_of_ok found, putNumber_puts]
  · simp only [Wire.put]
    rw [Buffer.overwrite_overwrite]
    all_goals simp only [length_numberBytes]
    exact room
  · rw [length_numberBytes, Wire.buffer_put, Buffer.capacity_overwrite]
    exact room
  · rw [length_numberBytes]
    exact small

end SetView

theorem SetField.run_view (field : SetField) {base : Nat} (small : base + field.offset < wordBound)
    (wire : Wire) :
    (field.view base).run wire = (.ok ⟨field.type, base + field.offset⟩, wire) := by
  rw [view, run_bind_of_ok (run_addSize small wire)]
  rfl

theorem CompositeField.run_view (field : CompositeField) {base : Nat}
    (small : base + field.offset < wordBound) (wire : Wire) :
    (field.view base).run wire = (.ok ⟨field.type, base + field.offset⟩, wire) := by
  rw [view, run_bind_of_ok (run_addSize small wire)]
  rfl

/-! ### Fields of variable length -/

/-- The bytes of a value of variable length. -/
def sizedBytes (source : List UInt8) : List UInt8 := numberBytes .uint32 source.length ++ source

theorem length_sizedBytes (source : List UInt8) :
    (sizedBytes source).length = VarField.headerLength + source.length := by
  rw [sizedBytes, List.length_append, length_numberBytes]
  rfl

theorem run_setLimit_add (wire : Wire) (length : Nat) :
    (setLimit (wire.cursor.limit + length)).run wire = (.ok (), wire.advance length) := rfl

theorem run_limit (wire : Wire) : limit.run wire = (.ok wire.cursor.limit, wire) := rfl

namespace VarField

variable {field : VarField} {text : String} {source : List UInt8} {charset : Charset}

theorem put_appends (short : source.length ≤ field.greatestLength) :
    Appends (field.put source) (sizedBytes source) := by
  intro wire room small
  have puts :=
    (putNumber_puts .uint32 wire.cursor.limit source.length).bind
      (putBytes_puts (wire.cursor.limit + headerLength) source)
      (wire.advance (sizedBytes source).length) room small
  rw [length_sizedBytes] at small
  rw [put, if_neg (by omega), run_bind_of_ok (run_limit wire),
    run_bind_of_ok (run_addSize small wire), run_bind_of_ok (run_setLimit_add wire _),
    ← length_sizedBytes, puts]
  rfl

theorem appends (encoded : charset.encode text = .ok source)
    (short : source.length ≤ field.greatestLength) :
    Appends (field.write charset text) (sizedBytes source) := by
  intro wire room small
  rw [write, run_bind_of_ok (run_encodeText encoded wire)]
  exact put_appends short wire room small

theorem run_length {wire : Wire} (known : field.since ≤ wire.cursor.version)
    (short : source.length < patternCount 4)
    (holds : wire.buffer.Holds wire.cursor.limit (sizedBytes source))
    (small : wire.cursor.limit + (sizedBytes source).length < wordBound) :
    field.length.run wire = (.ok source.length, wire) := by
  rw [VarField.length, run_of_known known, run_bind_of_ok (run_limit wire)]
  refine getNumber_gets short _ wire rfl holds.left ?_
  rw [length_sizedBytes, headerLength] at small
  rw [length_numberBytes, Primitive.size]
  omega

theorem run_consume {wire : Wire} (known : field.since ≤ wire.cursor.version)
    (short : source.length < patternCount 4)
    (holds : wire.buffer.Holds wire.cursor.limit (sizedBytes source))
    (small : wire.cursor.limit + (sizedBytes source).length < wordBound) :
    field.consume.run wire =
      (.ok (wire.cursor.limit, source.length), wire.advance (sizedBytes source).length) := by
  have length := run_length known short holds small
  rw [length_sizedBytes] at small ⊢
  rw [consume, run_bind_of_ok length, run_bind_of_ok (run_limit wire),
    run_bind_of_ok (run_addSize small wire), run_bind_of_ok (run_setLimit_add wire _)]
  rfl

theorem skip_reads (known : field.since ≤ version) (short : source.length < patternCount 4) :
    Reads version field.skip (sizedBytes source) source.length := by
  refine Reads.of_known known fun wire same holds small => ?_
  rw [run_bind_of_ok (run_consume (same ▸ known) short holds small)]
  rfl

theorem bytes_reads (known : field.since ≤ version) (short : source.length < patternCount 4) :
    Reads version field.bytes (sizedBytes source) source := by
  refine Reads.of_known known fun wire same holds small => ?_
  rw [run_bind_of_ok (run_consume (same ▸ known) short holds small)]
  have payload : Gets version (slice (wire.cursor.limit + headerLength) source.length)
      (wire.cursor.limit + headerLength) source source := slice_gets rfl
  refine payload _ same holds.right ?_
  rw [length_sizedBytes] at small
  omega

theorem reads (known : field.since ≤ version) (short : source.length < patternCount 4) :
    Reads version (field.read charset) (sizedBytes source) (charset.decode source) :=
  (bytes_reads known short).map charset.decode

theorem appends_ascii (ascii : Text.IsAscii text) (short : text.length ≤ field.greatestLength) :
    Appends (field.write .ascii text) (sizedBytes (Charset.oneByte text.toList)) :=
  appends (Charset.encode_ascii ascii) (by rwa [Charset.length_oneByte])

theorem reads_ascii (known : field.since ≤ version) (ascii : Text.IsAscii text)
    (short : text.length < patternCount 4) :
    Reads version (field.read .ascii) (sizedBytes (Charset.oneByte text.toList)) text := by
  have read : Reads version (field.read .ascii) (sizedBytes (Charset.oneByte text.toList))
      (Charset.ascii.decode (Charset.oneByte text.toList)) :=
    reads known (by rwa [Charset.length_oneByte])
  rwa [Charset.decode_oneByte ascii] at read

theorem reads_utf8 (known : field.since ≤ version)
    (short : (Text.Utf8.encode text.toList).length < patternCount 4) :
    Reads version (field.read .utf8) (sizedBytes (Text.Utf8.encode text.toList)) text := by
  have read : Reads version (field.read .utf8) (sizedBytes (Text.Utf8.encode text.toList))
      (String.ofList (Text.Utf8.decode (Text.Utf8.encode text.toList))) := reads known short
  rwa [Text.Utf8.decode_encode, String.ofList_toList] at read

end VarField

end Sbe.Codec
