import Mathlib.Algebra.Group.Nat.Defs
import Sbe.Proofs.Locality
import Sbe.Proofs.Writer

/-!
**Fields of a block as a store.**

Seen from outside, a block is a store of values: a number or enum holds one, an array or text one
for each element, a set one for each bit. A setter stores values at an address, and a getter finds
them there; in which bytes they stand matters only in so far as different addresses have different
bytes.

* `Leaf`: a field of a block with bytes of its own, a member or a part of a composite member;
* `Leaf.value`: the values that a buffer holds for a leaf;
* `Setter`: the setters of a block, and what each of them stores in a leaf;
* `Leaf.Stored`: what a setter leaves as it was;
* `Setter.run_work`: what a setter does to a wire.
-/

namespace Sbe

/-! ### Numbers in a buffer -/

theorem ofLittleEndian_inj {bytes others : List UInt8} (length : bytes.length = others.length)
    (same : ofLittleEndian bytes = ofLittleEndian others) : bytes = others := by
  induction bytes generalizing others with
  | nil => exact (List.length_eq_zero_iff.mp length.symm).symm
  | cons byte rest ih =>
    cases others with
    | nil => cases length
    | cons other later =>
      have small := byte.toNat_lt
      have fits := other.toNat_lt
      rw [ofLittleEndian, ofLittleEndian] at same
      have first : byte = other := UInt8.toNat_inj.mp (by omega)
      rw [first, ih (Nat.succ.inj length) (by omega)]

theorem patternCount_eq_two_pow (size : Nat) : patternCount size = 2 ^ (8 * size) := by
  rw [Nat.pow_mul]
  rfl

namespace Buffer

/-- The bytes of a range, fewer where the range leaves the buffer. -/
def bytesAt (buffer : Buffer) (start size : Nat) : List UInt8 :=
  (buffer.toList.drop start).take size

/-- The number whose bytes stand in a range. -/
def numberAt (buffer : Buffer) (start size : Nat) : Nat :=
  ofLittleEndian (buffer.bytesAt start size)

variable {buffer other : Buffer} {start size index : Nat} {source : List UInt8}

theorem getElem?_bytesAt (buffer : Buffer) (start size index : Nat) :
    (buffer.bytesAt start size)[index]? =
      if index < size then buffer.bytes[start + index]? else none := by
  rw [bytesAt, List.getElem?_take, List.getElem?_drop, toList, Array.getElem?_toList]

theorem length_bytesAt (inside : start + size ≤ buffer.capacity) :
    (buffer.bytesAt start size).length = size := by
  rw [bytesAt, List.length_take, List.length_drop, length_toList]
  omega

theorem bytesAt_congr
    (same : ∀ index, start ≤ index → index < start + size →
      buffer.bytes[index]? = other.bytes[index]?) :
    buffer.bytesAt start size = other.bytesAt start size := by
  refine List.ext_getElem? fun index => ?_
  rw [getElem?_bytesAt, getElem?_bytesAt]
  split
  · exact same (start + index) (by omega) (by omega)
  · rfl

theorem bytesAt_overwrite_apart (apart : start + size ≤ index ∨ index + source.length ≤ start) :
    (buffer.overwrite index source).bytesAt start size = buffer.bytesAt start size :=
  bytesAt_congr fun place above below => getElem?_overwrite (by omega)

theorem bytesAt_overwrite_inside (room : index + source.length ≤ buffer.capacity) (offset : Nat)
    (inside : offset + size ≤ source.length) :
    (buffer.overwrite index source).bytesAt (index + offset) size =
      (source.drop offset).take size := by
  have front : (buffer.toList.take index).length = index := by
    rw [List.length_take, length_toList]
    omega
  rw [bytesAt, toList_overwrite _ _ _ room, List.append_assoc, ← List.drop_drop,
    List.drop_left' front, List.drop_append_of_le_length (by omega),
    List.take_append_of_le_length (by rw [List.length_drop]; omega)]

theorem numberAt_overwrite_apart (apart : start + size ≤ index ∨ index + source.length ≤ start) :
    (buffer.overwrite index source).numberAt start size = buffer.numberAt start size :=
  congrArg ofLittleEndian (bytesAt_overwrite_apart apart)

/-- A number that has just been written is there, cut to its size. -/
theorem numberAt_overwrite_bytes (room : index + size ≤ buffer.capacity) (pattern : Nat) :
    (buffer.overwrite index (ByteOrder.littleEndian.bytes size pattern)).numberAt index size =
      pattern % patternCount size := by
  have whole : (buffer.overwrite index (ByteOrder.littleEndian.bytes size pattern)).bytesAt
      (index + 0) size = _ :=
    bytesAt_overwrite_inside (by rwa [ByteOrder.bytes_length]) 0
      (by rw [ByteOrder.bytes_length, Nat.zero_add])
  rw [Nat.add_zero, List.drop_zero,
    List.take_of_length_le (by rw [ByteOrder.bytes_length])] at whole
  rw [numberAt, whole]
  exact ByteOrder.littleEndian.number_bytes size pattern

theorem numberAt_lt (inside : start + size ≤ buffer.capacity) :
    buffer.numberAt start size < patternCount size := by
  have small := ofLittleEndian_lt (buffer.bytesAt start size)
  rwa [length_bytesAt inside] at small

/-- A byte as a number. -/
theorem numberAt_one (inside : start < buffer.capacity) :
    (buffer.bytes[start]?).map UInt8.toNat = some (buffer.numberAt start 1) := by
  have length : (buffer.bytesAt start 1).length = 1 := length_bytesAt (by omega)
  obtain ⟨byte, single⟩ := List.length_eq_one_iff.mp length
  have first := getElem?_bytesAt buffer start 1 0
  rw [single, if_pos Nat.one_pos, Nat.add_zero] at first
  rw [numberAt, single, ← first]
  simp [ofLittleEndian]

end Buffer

namespace Codec

/-! ### Leaves -/

/-- The address of a field of a block: the name of a member, and the name of a part inside it. -/
structure Address where
  member : String
  part : Option String := none
deriving DecidableEq

/-- The access to the field at an address. -/
def Address.ask (address : Address) (access : FieldAccess) : Access :=
  match address.part with
  | none => .field address.member access
  | some part => .composite address.member (.part part access)

/-- A field of a block with bytes of its own. A part of a composite is shifted by the offset of the
composite. -/
inductive Leaf where
  | number (shift : Nat) (field : NumberField)
  | array (field : ArrayField)
  | text (shift : Nat) (field : TextField)
  | enumeration (field : EnumField)
  | bitSet (field : SetField)
deriving DecidableEq

namespace Leaf

/-- The offset of a leaf in its block. -/
def start : Leaf → Nat
  | number shift field => shift + field.offset
  | array field => field.offset
  | text shift field => shift + field.offset
  | enumeration field => field.offset
  | bitSet field => field.offset

/-- The number of bytes of a leaf. -/
def size : Leaf → Nat
  | number _ field => field.primitive.size
  | array field => field.length * field.primitive.size
  | text _ field => field.length
  | enumeration field => field.type.primitive.size
  | bitSet field => field.type.primitive.size

/-- The number of values of a leaf. -/
def count : Leaf → Nat
  | number .. | enumeration _ => 1
  | array field => field.length
  | text _ field => field.length
  | bitSet field => 8 * field.type.primitive.size

/-- A value of a leaf in a block: the number, an element, a character, a bit. -/
def value (leaf : Leaf) (buffer : Buffer) (base index : Nat) : Nat :=
  match leaf with
  | number shift field => buffer.numberAt (base + shift + field.offset) field.primitive.size
  | array field => buffer.numberAt (field.elementIndex base index) field.primitive.size
  | text shift field => buffer.numberAt (field.elements.elementIndex (base + shift) index) 1
  | enumeration field => buffer.numberAt (base + field.offset) field.type.primitive.size
  | bitSet field =>
    ((buffer.numberAt (base + field.offset) field.type.primitive.size).testBit index).toNat

/-- Enums have a pattern for each value, and sets have room for their choices. -/
def IsSound : Leaf → Prop
  | enumeration field => field.type.IsDistinct
  | bitSet field => ∀ choice ∈ field.type.choices, choice.2 < 8 * field.type.primitive.size
  | _ => True

end Leaf

/-- A part of a composite as a leaf, nothing for a constant. -/
def Part.leaf? (shift : Nat) : Part → Option Leaf
  | number field => some (.number shift field)
  | text field => some (.text shift field)
  | constantNumber .. | constantText _ => none

/-- The leaf of a member, or of a part of it. -/
def Member.leaf? (part : Option String) : Member → Option Leaf
  | number field => if part.isNone then some (.number 0 field) else none
  | array field => if part.isNone then some (.array field) else none
  | text field => if part.isNone then some (.text 0 field) else none
  | enumeration field => if part.isNone then some (.enumeration field) else none
  | bitSet field => if part.isNone then some (.bitSet field) else none
  | composite field => part.bind fun name =>
    (field.type.parts.find? fun part => part.name == name).bind (Part.leaf? field.offset)
  | constantEnum .. => none

namespace MessageShape

/-- The leaf at an address of a message. -/
def leaf? (shape : MessageShape) (address : Address) : Option Leaf :=
  (Member.find? shape.members address.member).bind (Member.leaf? address.part)

/-- The block of a message, opened at an offset. -/
def block (shape : MessageShape) (base : Nat) : Element := .message ⟨shape, base, shape.blockLength⟩

/-- The wire of a message that is open at an offset of a buffer. -/
def opened (shape : MessageShape) (base : Nat) (buffer : Buffer) : Wire :=
  ⟨buffer, ⟨base + shape.blockLength, shape.version⟩⟩

/-- A message whose fields are all of its version, lie inside the block and have bytes of their
own. -/
structure Separate (shape : MessageShape) : Prop where
  known : shape.members.all (Member.isKnown shape.version) = true
  inside : ∀ {address leaf},
    shape.leaf? address = some leaf → leaf.start + leaf.size ≤ shape.blockLength
  apart : ∀ {address other leaf twin},
    shape.leaf? address = some leaf → shape.leaf? other = some twin →
    address ≠ other → leaf.start + leaf.size ≤ twin.start ∨ twin.start + twin.size ≤ leaf.start
  sound : ∀ {address leaf}, shape.leaf? address = some leaf → leaf.IsSound

end MessageShape

/-! ### Setters -/

/-- A setter of a block. -/
inductive Setter where
  | number (address : Address) (pattern : Nat)
  | choose (address : Address) (variant : Option String)
  | element (address : Address) (index pattern : Nat)
  | text (address : Address) (content : String)
  | bytes (address : Address) (source : List UInt8)
  | clear (name : String)
  | change (name choice : String) (value : Bool)

namespace Setter

/-- The address of the leaf that is set. -/
def address : Setter → Address
  | number address _ | choose address _ | element address .. | text address _ | bytes address _ =>
    address
  | clear name | change name .. => ⟨name, none⟩

/-- A setter as an access. -/
def access : Setter → Access
  | number address pattern => address.ask (.write pattern)
  | choose address variant => address.ask (.choose variant)
  | element address index pattern => address.ask (.writeAt index pattern)
  | text address content => address.ask (.writeText content)
  | bytes address source => address.ask (.writeBytes source)
  | clear name => .bitSet name .clear
  | change name choice value => .bitSet name (.change choice value)

/-- A character of a text, cut or padded to a length. -/
def character (length : Nat) (source : List UInt8) (index : Nat) : Nat :=
  ((padded length source)[index]?.getD 0).toNat

/-- A character that stands for a content, nothing for a content that the character set has not. -/
def written (field : TextField) (content : String) (index : Nat) : Option Nat :=
  match field.charset.encode content with
  | .ok source => some (character field.length source index)
  | .error _ => none

/-- The value that a setter stores at an index of a leaf, nothing when it stores none. -/
def stores (setter : Setter) (leaf : Leaf) (index : Nat) : Option Nat :=
  match leaf, setter with
  | .number _ field, number _ pattern => some (pattern % patternCount field.primitive.size)
  | .array field, element _ place pattern =>
    if place = index then some (pattern % patternCount field.primitive.size) else none
  | .text .., element _ place pattern =>
    if place = index then some (pattern % patternCount 1) else none
  | .text _ field, bytes _ source => some (character field.length source index)
  | .text _ field, text _ content => written field content index
  | .enumeration field, choose _ variant => some (EnumValue.named field.type variant).raw
  | .bitSet _, clear _ => some 0
  | .bitSet field, change _ choice value =>
    if field.type.choices.lookup choice = some index then some value.toNat else none
  | _, _ => none

end Setter

/-! ### Setters at work -/

section Work

variable {wire : Wire} {base : Nat}

theorem run_slice {index length : Nat} (inside : index + length ≤ wire.buffer.capacity) :
    (slice index length).run wire = (.ok (wire.buffer.bytesAt index length), wire) :=
  congrArg (·, wire) (Buffer.slice_eq wire.buffer index length inside)

theorem run_getNumber_eq {primitive : Primitive} {index : Nat}
    (inside : index + primitive.size ≤ wire.buffer.capacity) :
    (getNumber primitive index).run wire =
      (.ok (wire.buffer.numberAt index primitive.size), wire) := by
  rw [getNumber, run_bind_of_ok (run_slice inside)]
  rfl

theorem run_silent {work : Codec Unit} {after : Wire} (done : work.run wire = (.ok (), after)) :
    (silent work).run wire = (.ok .nothing, after) := by
  rw [silent, run_bind_of_ok done]
  rfl

theorem run_viewAt {α : Type} {place : Nat → α} {since offset : Nat}
    (known : since ≤ wire.cursor.version) (small : base + offset < wordBound) :
    (viewAt place since offset base).run wire = (.ok (some (place (base + offset))), wire) := by
  rw [viewAt, run_of_known known, bind_assoc, run_bind_of_ok (run_addSize small wire)]
  rfl

namespace Leaf

/-- The work of a field access to a leaf. -/
def fieldWork (base : Nat) : Leaf → FieldAccess → Codec Datum
  | number shift field => field.access (base + shift)
  | array field => field.access base
  | text shift field => field.access (base + shift)
  | enumeration field => field.access base
  | bitSet _ => fun _ => pure .nothing

/-- The work of a set access to a leaf. -/
def setWork (base : Nat) : Leaf → SetAccess → Codec Datum
  | bitSet field => (SetView.mk field.type (base + field.offset)).access
  | _ => fun _ => pure .nothing

end Leaf

theorem CompositeView.access_one (view : CompositeView) (access : CompositeAccess) :
    view.access [access] = view.accessOne access := by
  simp [CompositeView.access, Datum.ofList]

section Resolve

variable {shape : MessageShape} (separate : shape.Separate)
  (version : wire.cursor.version = shape.version) (small : base + shape.blockLength < wordBound)
include separate version small

/-- An access by address is one to the leaf there. -/
theorem run_ask {address : Address} {leaf : Leaf} (found : shape.leaf? address = some leaf)
    (access : FieldAccess) : ((address.ask access).work (shape.block base)).run wire =
      (leaf.fieldWork base access).run wire := by
  have inside := separate.inside found
  obtain ⟨member, named, leafOf⟩ := Option.bind_eq_some_iff.mp found
  have known := List.all_eq_true.mp separate.known member (List.mem_of_find?_eq_some named)
  change Member.find? (shape.block base).members address.member = some member at named
  obtain ⟨name, part⟩ := address
  cases member with
  | number field | array field | text field | enumeration field | bitSet field =>
    cases part with
    | some => cases leafOf
    | none =>
      cases leafOf
      show ((shape.block base).access name access).run wire = _
      rw [Element.access_member named]
      rfl
  | constantEnum => cases leafOf
  | composite field =>
    cases part with
    | none => cases leafOf
    | some partName =>
      obtain ⟨part, partNamed, partLeaf⟩ := Option.bind_eq_some_iff.mp leafOf
      rw [Member.isKnown, Bool.and_eq_true] at known
      have start : field.offset ≤ leaf.start := by
        cases part with
        | number inner => cases partLeaf; exact Nat.le_add_right _ _
        | text inner => cases partLeaf; exact Nat.le_add_right _ _
        | constantNumber | constantText => cases partLeaf
      have viewed : (field.view? base).run wire =
          (.ok (some ⟨field.type, base + field.offset⟩), wire) := by
        rw [field.view?_eq]
        exact run_viewAt (by rw [version]; exact of_decide_eq_true known.1) (by omega)
      show ((shape.block base).accessComposite name [.part partName access]).run wire = _
      rw [Element.accessComposite, named]
      refine (run_bind_of_ok viewed).trans ?_
      dsimp only
      rw [CompositeView.access_one, CompositeView.accessOne, partNamed]
      cases part with
      | number inner => cases partLeaf; rfl
      | text inner => cases partLeaf; rfl
      | constantNumber | constantText => cases partLeaf

/-- An access to a set is one to the leaf at its name. -/
theorem run_askSet {name : String} {leaf : Leaf} (found : shape.leaf? ⟨name, none⟩ = some leaf)
    (access : SetAccess) : ((Access.bitSet name access).work (shape.block base)).run wire =
      (leaf.setWork base access).run wire := by
  have inside := separate.inside found
  obtain ⟨member, named, leafOf⟩ := Option.bind_eq_some_iff.mp found
  have known := List.all_eq_true.mp separate.known member (List.mem_of_find?_eq_some named)
  change Member.find? (shape.block base).members name = some member at named
  show ((shape.block base).accessSet name access).run wire = _
  rw [Element.accessSet, named]
  cases member with
  | number field | array field | text field | enumeration field =>
    cases leafOf
    rfl
  | constantEnum | composite => cases leafOf
  | bitSet field =>
    cases leafOf
    have viewed : (field.view? base).run wire =
        (.ok (some ⟨field.type, base + field.offset⟩), wire) := by
      rw [field.view?_eq]
      rw [Leaf.start] at inside
      exact run_viewAt (by rw [version]; exact of_decide_eq_true known) (by omega)
    exact run_bind_of_ok viewed

end Resolve

/-- What a setter does to a wire: it stores values in its leaf, and leaves all other values of the
leaf and all bytes outside of it. -/
structure Leaf.Stored (leaf : Leaf) (base : Nat) (stored : Nat → Option Nat) (before after : Wire) :
    Prop where
  cursor : after.cursor = before.cursor
  capacity : after.buffer.capacity = before.buffer.capacity
  outside : ∀ index, index < base + leaf.start ∨ base + leaf.start + leaf.size ≤ index →
    after.buffer.bytes[index]? = before.buffer.bytes[index]?
  values : ∀ index < leaf.count,
    leaf.value after.buffer base index = (stored index).getD (leaf.value before.buffer base index)

/-- Work that stores values in a leaf, or is refused and stores none. -/
def Leaf.Stores (leaf : Leaf) (base : Nat) (stored : Nat → Option Nat) (wire : Wire)
    (work : Codec Datum) : Prop :=
  ∃ outcome after, work.run wire = (outcome, after) ∧ outcome ≠ .error .fault ∧
    leaf.Stored base stored wire after

namespace Leaf

variable {leaf : Leaf} {stored : Nat → Option Nat}

theorem Stores.nothing {work : Codec Datum} {outcome : Outcome CodecError Datum}
    (ended : work.run wire = (outcome, wire)) (going : outcome ≠ .error .fault)
    (none : ∀ index < leaf.count, stored index = none) : leaf.Stores base stored wire work := by
  refine ⟨outcome, wire, ended, going, rfl, rfl, fun _ _ => rfl, fun index inside => ?_⟩
  rw [none index inside]
  rfl

theorem Stores.idle (none : ∀ index < leaf.count, stored index = none) :
    leaf.Stores base stored wire (pure .nothing) :=
  .nothing rfl (fun fault => by cases fault) none

theorem Stores.of_run_eq {work other : Codec Datum} (same : work.run wire = other.run wire)
    (stores : leaf.Stores base stored wire other) : leaf.Stores base stored wire work := by
  unfold Leaf.Stores
  rwa [same]

theorem Stores.put {work : Codec Unit} {index : Nat} {source : List UInt8}
    (puts : Puts work index source) (above : base + leaf.start ≤ index)
    (below : index + source.length ≤ base + leaf.start + leaf.size)
    (room : base + leaf.start + leaf.size ≤ wire.buffer.capacity)
    (small : base + leaf.start + leaf.size < wordBound)
    (values : ∀ place < leaf.count, leaf.value (wire.buffer.overwrite index source) base place =
      (stored place).getD (leaf.value wire.buffer base place)) :
    leaf.Stores base stored wire (silent work) := by
  refine ⟨.ok .nothing, wire.put index source, run_silent (puts wire (by omega) (by omega)), ?_,
    rfl, Buffer.capacity_overwrite _ _ _, fun place outside => Buffer.getElem?_overwrite (by omega),
    values⟩
  intro fault
  cases fault

end Leaf

end Work

/-! ### Values that are stored -/

section Values

variable {wire : Wire} {base : Nat}

theorem NumberField.write_stores (field : NumberField) (shift pattern : Nat)
    (room : base + (shift + field.offset) + field.primitive.size ≤ wire.buffer.capacity)
    (small : base + (shift + field.offset) + field.primitive.size < wordBound) :
    (Leaf.number shift field).Stores base
      (fun _ => some (pattern % patternCount field.primitive.size)) wire
      (silent (field.write (base + shift) pattern)) := by
  refine .put (NumberField.puts rfl pattern) (by rw [Leaf.start]; omega) ?_ room small fun _ _ => ?_
  · rw [length_numberBytes, Leaf.start, Leaf.size]
    omega
  · exact Buffer.numberAt_overwrite_bytes (by omega) pattern

theorem EnumField.write_stores (field : EnumField) (distinct : field.type.IsDistinct)
    (value : EnumValue field.type)
    (room : base + field.offset + field.type.primitive.size ≤ wire.buffer.capacity)
    (small : base + field.offset + field.type.primitive.size < wordBound) :
    (Leaf.enumeration field).Stores base (fun _ => some value.raw) wire
      (silent (field.write base value)) := by
  refine .put (EnumField.puts rfl value) (Nat.le_refl _) ?_ room small fun _ _ => ?_
  · rw [length_numberBytes]
    exact Nat.le_refl _
  · have stored := Buffer.numberAt_overwrite_bytes room value.raw
    rwa [Nat.mod_eq_of_lt (value.raw_lt distinct)] at stored

/-- Elements of one array have bytes of their own. -/
theorem ArrayField.elements_apart (field : ArrayField) {place index : Nat} (base : Nat)
    (different : place ≠ index) :
    field.elementIndex base index + field.primitive.size ≤ field.elementIndex base place ∨
      field.elementIndex base place + field.primitive.size ≤ field.elementIndex base index := by
  unfold elementIndex
  rcases Nat.lt_or_gt_of_ne different with before | behind
  · have step := Nat.mul_le_mul_right field.primitive.size (Nat.succ_le_of_lt before)
    rw [Nat.succ_mul] at step
    omega
  · have step := Nat.mul_le_mul_right field.primitive.size (Nat.succ_le_of_lt behind)
    rw [Nat.succ_mul] at step
    omega

theorem ArrayField.elementIndex_le (field : ArrayField) {index : Nat} (base : Nat)
    (inside : index < field.length) :
    field.elementIndex base index + field.primitive.size ≤
      base + field.offset + field.length * field.primitive.size := by
  have step := Nat.mul_le_mul_right field.primitive.size (Nat.succ_le_of_lt inside)
  rw [Nat.succ_mul] at step
  unfold elementIndex
  omega

theorem ArrayField.run_writeAt_of_not_lt (field : ArrayField) {index : Nat}
    (outside : ¬ index < field.length) (pattern : Nat) :
    (silent (field.writeAt base index pattern)).run wire =
      (.error (.refused (.indexOutOfRange field.name index field.length)), wire) := by
  rw [silent, writeAt, testIndex, if_neg outside]
  rfl

theorem ArrayField.write_stores (field : ArrayField) (place pattern : Nat)
    (room : base + field.offset + field.length * field.primitive.size ≤ wire.buffer.capacity)
    (small : base + field.offset + field.length * field.primitive.size < wordBound) :
    (Leaf.array field).Stores base (fun index =>
        if place = index then some (pattern % patternCount field.primitive.size) else none) wire
      (silent (field.writeAt base place pattern)) := by
  by_cases inside : place < field.length
  · have upto := field.elementIndex_le base inside
    refine .put (ArrayField.puts inside rfl pattern) ?_ ?_ room small fun index _ => ?_
    · rw [elementIndex, Leaf.start]
      omega
    · rw [length_numberBytes, Leaf.start, Leaf.size]
      exact upto
    · by_cases same : place = index
      · rw [if_pos same, ← same]
        exact Buffer.numberAt_overwrite_bytes (by omega) pattern
      · rw [if_neg same]
        refine Buffer.numberAt_overwrite_apart ?_
        rw [length_numberBytes]
        exact field.elements_apart base same
  · refine .nothing (field.run_writeAt_of_not_lt inside pattern) (fun fault => by cases fault) ?_
    intro index bound
    rw [if_neg]
    rintro rfl
    exact inside bound

theorem TextField.elementIndex_elements (field : TextField) (base index : Nat) :
    field.elements.elementIndex base index = base + field.offset + index := by
  show base + field.offset + index * 1 = _
  rw [Nat.mul_one]

/-- A text is written by its characters as any array is by its elements. -/
theorem TextField.writeAt_stores (field : TextField) (shift place pattern : Nat)
    (room : base + (shift + field.offset) + field.length ≤ wire.buffer.capacity)
    (small : base + (shift + field.offset) + field.length < wordBound) :
    (Leaf.text shift field).Stores base
      (fun index => if place = index then some (pattern % patternCount 1) else none) wire
      (silent (field.elements.writeAt (base + shift) place pattern)) := by
  have size : field.elements.length * field.elements.primitive.size = field.length := Nat.mul_one _
  have offset : field.elements.offset = field.offset := rfl
  have written : (Leaf.array field.elements).Stores (base + shift) _ wire _ :=
    field.elements.write_stores place pattern (by rw [size, offset]; omega)
      (by rw [size, offset]; omega)
  obtain ⟨outcome, after, ended, going, cursor, capacity, outside, values⟩ := written
  refine ⟨outcome, after, ended, going, cursor, capacity, fun index apart => ?_, values⟩
  refine outside index ?_
  rw [Leaf.start, Leaf.size, size, offset]
  rw [Leaf.start, Leaf.size] at apart
  omega

theorem TextField.put_stores (field : TextField) (shift : Nat) (source : List UInt8)
    (room : base + (shift + field.offset) + field.length ≤ wire.buffer.capacity)
    (small : base + (shift + field.offset) + field.length < wordBound) {work : Codec Unit}
    (puts : Puts work (base + shift + field.offset) (padded field.length source)) :
    (Leaf.text shift field).Stores base
      (fun index => some (Setter.character field.length source index)) wire (silent work) := by
  refine .put puts (by rw [Leaf.start]; omega) ?_ room small fun index inside => ?_
  · rw [length_padded, Leaf.start, Leaf.size]
    omega
  · have bound : index < (padded field.length source).length := by
      rw [length_padded]
      exact inside
    rw [Leaf.value, elementIndex_elements, Buffer.numberAt,
      Buffer.bytesAt_overwrite_inside (by rw [length_padded]; omega) index (by omega),
      List.drop_eq_getElem_cons bound, List.take_succ_cons, List.take_zero, Option.getD_some,
      Setter.character, List.getElem?_eq_getElem bound]
    rfl

theorem TextField.write_stores (field : TextField) (shift : Nat) (content : String)
    (room : base + (shift + field.offset) + field.length ≤ wire.buffer.capacity)
    (small : base + (shift + field.offset) + field.length < wordBound) :
    (Leaf.text shift field).Stores base (Setter.written field content) wire
      (silent (field.write (base + shift) content)) := by
  unfold Setter.written
  cases encoded : field.charset.encode content with
  | ok source =>
    exact field.put_stores shift source room small (TextField.puts encoded rfl)
  | error character =>
    have refused : (silent (field.write (base + shift) content)).run wire =
        (.error (.refused (.unrepresentable field.charset.name character)), wire) := by
      rw [silent, write, encodeText, encoded]
      rfl
    exact .nothing refused (fun fault => by cases fault) fun _ _ => rfl

/-! ### Bits of a set -/

theorem SetType.testBit_change (raw bit index : Nat) (value : Bool) :
    (SetType.change raw bit value).testBit index =
      if bit = index then value else raw.testBit index := by
  unfold change
  by_cases same : bit = index
  · subst same
    cases value <;> simp [Nat.testBit_shiftLeft]
  · have apart : (1 <<< bit).testBit index = false := by
      rw [Nat.one_shiftLeft, Nat.testBit_two_pow_of_ne same]
    cases value <;> simp [same, apart]

theorem SetView.clear_stores (field : SetField)
    (room : base + field.offset + field.type.primitive.size ≤ wire.buffer.capacity)
    (small : base + field.offset + field.type.primitive.size < wordBound) :
    (Leaf.bitSet field).Stores base (fun _ => some 0) wire
      (silent (SetView.mk field.type (base + field.offset)).clear) := by
  refine .put (putNumber_puts _ _ 0) (Nat.le_refl _) ?_ room small fun index _ => ?_
  · rw [length_numberBytes]
    exact Nat.le_refl _
  · rw [Leaf.value, numberBytes, Buffer.numberAt_overwrite_bytes room 0, Nat.zero_mod,
      Nat.zero_testBit]
    rfl

/-- Changing a choice reads the set and writes it back with one other bit. -/
theorem SetView.change_stores (field : SetField) (bit : Nat) (value : Bool)
    (room : base + field.offset + field.type.primitive.size ≤ wire.buffer.capacity)
    (small : base + field.offset + field.type.primitive.size < wordBound) :
    (Leaf.bitSet field).Stores base (fun index => if bit = index then some value.toNat else none)
      wire (silent ((SetView.mk field.type (base + field.offset)).change bit value)) := by
  have raw : (SetView.mk field.type (base + field.offset)).raw.run wire =
      (.ok (wire.buffer.numberAt (base + field.offset) field.type.primitive.size), wire) :=
    run_getNumber_eq room
  have written : (Leaf.bitSet field).Stores base
      (fun index => if bit = index then some value.toNat else none) wire
      (silent (putNumber field.type.primitive (base + field.offset) (SetType.change
        (wire.buffer.numberAt (base + field.offset) field.type.primitive.size) bit value))) := by
    refine .put (putNumber_puts _ _ _) (Nat.le_refl _) ?_ room small fun index inside => ?_
    · rw [length_numberBytes]
      exact Nat.le_refl _
    · change index < 8 * field.type.primitive.size at inside
      rw [Leaf.value, numberBytes, Buffer.numberAt_overwrite_bytes room, patternCount_eq_two_pow,
        Nat.testBit_mod_two_pow, decide_eq_true inside, Bool.true_and, SetType.testBit_change]
      by_cases same : bit = index
      · rw [if_pos same, if_pos same]
        rfl
      · rw [if_neg same, if_neg same]
        rfl
  obtain ⟨outcome, after, ended, going, stored⟩ := written
  refine ⟨outcome, after, ?_, going, stored⟩
  rw [← ended, silent, silent, change, bind_assoc, run_bind_of_ok raw]

theorem SetView.access_stores (field : SetField) (choice : String) (value : Bool)
    (room : base + field.offset + field.type.primitive.size ≤ wire.buffer.capacity)
    (small : base + field.offset + field.type.primitive.size < wordBound) :
    (Leaf.bitSet field).Stores base (fun index =>
        if field.type.choices.lookup choice = some index then some value.toNat else none) wire
      ((SetView.mk field.type (base + field.offset)).access (.change choice value)) := by
  cases named : field.type.choices.lookup choice with
  | none =>
    rw [SetView.access, named]
    exact .idle fun _ _ => rfl
  | some bit =>
    rw [SetView.access, named]
    simp only [Option.some.injEq]
    exact SetView.change_stores field bit value room small

/-- A setter stores its values in its leaf, and nothing else changes. A setter for another kind of
field stores none. -/
theorem Setter.run_work {shape : MessageShape} (separate : shape.Separate)
    (version : wire.cursor.version = shape.version)
    (room : base + shape.blockLength ≤ wire.buffer.capacity)
    (small : base + shape.blockLength < wordBound) {setter : Setter} {leaf : Leaf}
    (found : shape.leaf? setter.address = some leaf) :
    leaf.Stores base (setter.stores leaf) wire (setter.access.work (shape.block base)) := by
  have inside := separate.inside found
  have sound := separate.sound found
  have room : base + leaf.start + leaf.size ≤ wire.buffer.capacity := by omega
  have fits : base + leaf.start + leaf.size < wordBound := by omega
  cases setter with
  | number address pattern =>
    refine .of_run_eq (run_ask separate version small found (.write pattern)) ?_
    cases leaf with
    | number shift field => exact field.write_stores shift pattern room fits
    | array | text | enumeration | bitSet => exact .idle fun _ _ => rfl
  | choose address variant =>
    refine .of_run_eq (run_ask separate version small found (.choose variant)) ?_
    cases leaf with
    | enumeration field => exact field.write_stores sound (.named field.type variant) room fits
    | number | array | text | bitSet => exact .idle fun _ _ => rfl
  | element address place pattern =>
    refine .of_run_eq (run_ask separate version small found (.writeAt place pattern)) ?_
    cases leaf with
    | array field => exact field.write_stores place pattern room fits
    | text shift field => exact field.writeAt_stores shift place pattern room fits
    | number | enumeration | bitSet => exact .idle fun _ _ => rfl
  | text address content =>
    refine .of_run_eq (run_ask separate version small found (.writeText content)) ?_
    cases leaf with
    | text shift field => exact field.write_stores shift content room fits
    | number | array | enumeration | bitSet => exact .idle fun _ _ => rfl
  | bytes address source =>
    refine .of_run_eq (run_ask separate version small found (.writeBytes source)) ?_
    cases leaf with
    | text shift field =>
      exact field.put_stores shift source room fits (TextField.put_puts rfl source)
    | number | array | enumeration | bitSet => exact .idle fun _ _ => rfl
  | clear name =>
    refine .of_run_eq (run_askSet separate version small found .clear) ?_
    cases leaf with
    | bitSet field => exact SetView.clear_stores field room fits
    | number | array | text | enumeration => exact .idle fun _ _ => rfl
  | change name choice value =>
    refine .of_run_eq (run_askSet separate version small found (.change choice value)) ?_
    cases leaf with
    | bitSet field => exact SetView.access_stores field choice value room fits
    | number | array | text | enumeration => exact .idle fun _ _ => rfl

end Values

end Codec

end Sbe
