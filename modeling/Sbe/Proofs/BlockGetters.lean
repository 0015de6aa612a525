import Mathlib.Data.Nat.Init
import Sbe.Proofs.BlockFields

/-!
**What the getters of a block give.**

A getter of a field depends on the values of its leaf only, whatever the bytes around it are; and
the bytes of a leaf are told by its values.

* `Leaf.answer`, `Leaf.setAnswer`: what the getters of a field give for given values;
* `Leaf.run_fieldWork`, `Leaf.run_setWork`: they give so on every wire;
* `Leaf.value_congr`, `Leaf.bytes_eq_of_value`: a leaf has the same values as another buffer's
  exactly when it has the same bytes;
* `Address.ask_fixed`: what has no bytes of its own is the same in every message.
-/

namespace Sbe.Codec

/-! ### Getters -/

namespace Leaf

/-- The version that introduced a leaf. -/
def since : Leaf → Nat
  | number _ field => field.since
  | array field => field.since
  | text _ field => field.since
  | enumeration field => field.since
  | bitSet field => field.since

/-- The characters of a text whose values are given. -/
def characters (values : Nat → Nat) (length : Nat) : List UInt8 :=
  (List.range length).map fun index => .ofNat (values index)

/-- The bit pattern of a set whose bits are given. -/
def pattern (values : Nat → Nat) (size : Nat) : Nat :=
  Nat.ofBits fun bit : Fin (8 * size) => values bit == 1

/-- What reading an element gives. -/
def elementAnswer (field : ArrayField) (values : Nat → Nat) (index : Nat) :
    Outcome CodecError Datum :=
  if index < field.length then .ok (.number field.primitive (values index))
  else .refuse (.indexOutOfRange field.name index field.length)

/-- What a getter of a field gives when the leaf holds the given values. -/
def answer (leaf : Leaf) (values : Nat → Nat) (access : FieldAccess) : Outcome CodecError Datum :=
  match leaf, access with
  | number _ field, .read | number _ field, .readRaw => .ok (.number field.primitive (values 0))
  | array field, .readAt index => elementAnswer field values index
  | text _ field, .readAt index => elementAnswer field.elements values index
  | text _ field, .readText =>
    .ok (.text (field.charset.decode (Text.beforeNul (characters values field.length))))
  | text _ field, .copy capacity =>
    if capacity < field.length then .refuse (.destinationTooSmall field.name field.length capacity)
    else .ok (.copied (field.length,
      characters values field.length ++ (emptyDestination capacity).drop field.length))
  | enumeration field, .read =>
    (EnumValue.ofRaw field.type (values 0)).map fun value => .text value.text
  | enumeration field, .readRaw => .ok (.number field.type.primitive (values 0))
  | _, _ => .ok .nothing

/-- What a getter of a set gives when the leaf holds the given bits. -/
def setAnswer (leaf : Leaf) (values : Nat → Nat) (access : SetAccess) : Outcome CodecError Datum :=
  match leaf, access with
  | bitSet field, .raw =>
    .ok (.number field.type.primitive (pattern values field.type.primitive.size))
  | bitSet field, .text => .ok (.text (field.type.text (pattern values field.type.primitive.size)))
  | bitSet field, .test choice =>
    match field.type.choices.lookup choice with
    | some bit => .ok (.flag (values bit == 1))
    | none => .ok .nothing
  | _, _ => .ok .nothing

section Getters

variable {wire : Wire} {base : Nat} {buffer : Buffer}

theorem characters_numberAt {start length : Nat} (inside : start + length ≤ buffer.capacity) :
    characters (fun index => buffer.numberAt (start + index) 1) length =
      buffer.bytesAt start length := by
  refine List.ext_getElem? fun index => ?_
  rw [Buffer.getElem?_bytesAt, characters, List.getElem?_map]
  by_cases early : index < length
  · have byte : (buffer.bytes[start + index]?).map _ = _ := Buffer.numberAt_one (by omega)
    obtain ⟨value, there, same⟩ := Option.map_eq_some_iff.mp byte
    rw [List.getElem?_range early, if_pos early, there, Option.map_some, ← same, UInt8.ofNat_toNat]
  · rw [if_neg early, List.getElem?_eq_none (by rw [List.length_range]; omega)]
    rfl

theorem pattern_testBit {raw size : Nat} (fits : raw < patternCount size) :
    pattern (fun bit => (raw.testBit bit).toNat) size = raw := by
  have bits : (fun bit : Fin (8 * size) => (raw.testBit bit).toNat == 1) =
      fun bit => raw.testBit bit.val := by
    funext bit
    cases raw.testBit bit <;> rfl
  rw [pattern, bits, Nat.ofBits_testBit, ← patternCount_eq_two_pow, Nat.mod_eq_of_lt fits]

theorem run_readAt {field : ArrayField} (known : field.since ≤ wire.cursor.version)
    (room : base + field.offset + field.length * field.primitive.size ≤ wire.buffer.capacity)
    (index : Nat) :
    (field.access base (.readAt index)).run wire =
      (elementAnswer field (fun index =>
        wire.buffer.numberAt (field.elementIndex base index)
            field.primitive.size) index, wire) := by
  unfold elementAnswer
  by_cases inside : index < field.length
  · have upto := field.elementIndex_le base inside
    have gave : (field.readAt base index).run wire =
        (.ok (wire.buffer.numberAt (field.elementIndex base index) field.primitive.size),
          wire) := by
      rw [ArrayField.readAt, run_bind_of_ok (ArrayField.run_testIndex inside wire),
        run_of_known known]
      exact run_getNumber_eq (by omega)
    rw [if_pos inside, ArrayField.access, run_bind_of_ok gave]
    rfl
  · rw [if_neg inside, ArrayField.access, ArrayField.readAt, ArrayField.testIndex, if_neg inside]
    rfl

theorem run_readText {field : TextField} (known : field.since ≤ wire.cursor.version)
    (room : base + field.offset + field.length ≤ wire.buffer.capacity) :
    (field.access base .readText).run wire =
      (.ok (.text (field.charset.decode (Text.beforeNul
        (wire.buffer.bytesAt (base + field.offset) field.length)))), wire) := by
  have gave : (field.read base).run wire = (.ok (field.charset.decode (Text.beforeNul
      (wire.buffer.bytesAt (base + field.offset) field.length))), wire) := by
    rw [TextField.read, run_of_known known, run_bind_of_ok (run_slice room)]
    rfl
  rw [TextField.access, run_bind_of_ok gave]
  rfl

theorem run_copy {field : TextField} (known : field.since ≤ wire.cursor.version)
    (room : base + field.offset + field.length ≤ wire.buffer.capacity) (capacity : Nat) :
    (field.access base (.copy capacity)).run wire =
      (if capacity < field.length then
          Outcome.refuse (.destinationTooSmall field.name field.length capacity)
        else .ok (.copied (field.length, wire.buffer.bytesAt (base + field.offset) field.length ++
          (emptyDestination capacity).drop field.length)), wire) := by
  have length : (emptyDestination capacity).length = capacity := List.length_replicate
  rw [TextField.access, TextField.copy, length]
  by_cases short : capacity < field.length
  · rw [if_pos short, if_pos short]
    rfl
  · rw [if_neg short, if_neg short]
    have gave := run_of_known known (pure (0, emptyDestination capacity))
      (slice (base + field.offset) field.length >>= fun bytes =>
        pure (field.length, bytes ++ (emptyDestination capacity).drop field.length))
    rw [run_bind_of_ok (run_slice room)] at gave
    exact run_bind_of_ok gave

theorem run_readRaw {field : EnumField} (known : field.since ≤ wire.cursor.version)
    (room : base + field.offset + field.type.primitive.size ≤ wire.buffer.capacity) :
    (field.readRaw base).run wire =
      (.ok (wire.buffer.numberAt (base + field.offset) field.type.primitive.size), wire) := by
  rw [EnumField.readRaw, run_of_known known]
  exact run_getNumber_eq room

/-- A getter gives what the values of its leaf say, and leaves the wire as it was. -/
theorem run_fieldWork {leaf : Leaf} {access : FieldAccess} (getter : access.sets = false)
    (known : leaf.since ≤ wire.cursor.version)
    (room : base + leaf.start + leaf.size ≤ wire.buffer.capacity) :
    (leaf.fieldWork base access).run wire =
      (leaf.answer (leaf.value wire.buffer base) access, wire) := by
  cases leaf with
  | number shift field =>
    change field.since ≤ wire.cursor.version at known
    have gave : (field.read (base + shift)).run wire =
        (.ok (wire.buffer.numberAt (base + shift + field.offset) field.primitive.size), wire) := by
      rw [NumberField.read, run_of_known known]
      refine run_getNumber_eq ?_
      rw [start, size] at room
      omega
    cases access with
    | read | readRaw =>
      rw [fieldWork, NumberField.access, run_bind_of_ok gave]
      rfl
    | write => cases getter
    | _ => rfl
  | array field =>
    cases access with
    | readAt index => exact run_readAt known room index
    | writeAt => cases getter
    | _ => rfl
  | text shift field =>
    rw [start, size] at room
    have characters : characters ((text shift field).value wire.buffer base) field.length =
        wire.buffer.bytesAt (base + shift + field.offset) field.length := by
      rw [← characters_numberAt (by omega)]
      refine congrArg (characters · field.length) (funext fun index => ?_)
      rw [value, TextField.elementIndex_elements]
    cases access with
    | readText =>
      rw [answer, characters]
      refine run_readText known ?_
      omega
    | copy capacity =>
      rw [answer, characters]
      refine run_copy known ?_ capacity
      omega
    | readAt index =>
      refine @run_readAt wire (base + shift) field.elements known ?_ index
      show base + shift + field.offset + field.length * 1 ≤ _
      omega
    | writeText | writeBytes | writeAt => cases getter
    | _ => rfl
  | enumeration field =>
    have gave := run_readRaw known room
    cases access with
    | read =>
      rw [fieldWork, EnumField.access, EnumField.read, bind_assoc, run_bind_of_ok gave]
      rw [answer, value]
      cases EnumValue.ofRaw field.type _ with
      | ok value => rfl
      | error halt => rfl
    | readRaw =>
      rw [fieldWork, EnumField.access, run_bind_of_ok gave]
      rfl
    | choose => cases getter
    | _ => rfl
  | bitSet field => rfl

/-- A getter of a set gives what the bits say, and leaves the wire as it was. -/
theorem run_setWork {leaf : Leaf} {access : SetAccess} (getter : access.sets = false)
    (room : base + leaf.start + leaf.size ≤ wire.buffer.capacity) :
    (leaf.setWork base access).run wire =
      (leaf.setAnswer (leaf.value wire.buffer base) access, wire) := by
  cases leaf with
  | bitSet field =>
    have gave : (SetView.mk field.type (base + field.offset)).raw.run wire =
        (.ok (wire.buffer.numberAt (base + field.offset) field.type.primitive.size), wire) :=
      run_getNumber_eq room
    have whole : pattern ((bitSet field).value wire.buffer base) field.type.primitive.size =
        wire.buffer.numberAt (base + field.offset) field.type.primitive.size :=
      pattern_testBit (Buffer.numberAt_lt room)
    cases access with
    | raw =>
      rw [setAnswer, whole, setWork, SetView.access, run_bind_of_ok gave]
      rfl
    | text =>
      rw [setAnswer, whole, setWork, SetView.access, SetView.text_eq]
      split
      · next none =>
        have choiceless : field.type.choices = [] := none
        simp only [SetType.text, choiceless]
        rfl
      · rw [bind_assoc, run_bind_of_ok gave]
        rfl
    | test choice =>
      rw [setAnswer, setWork, SetView.access]
      cases field.type.choices.lookup choice with
      | none => rfl
      | some bit =>
        dsimp only
        rw [run_bind_of_ok gave, value, SetType.test]
        cases Nat.testBit _ bit <;> rfl
    | clear | change => cases getter
  | number | array | text | enumeration => rfl

end Getters

section Values

variable {leaf : Leaf} {values others : Nat → Nat}

theorem characters_congr {length : Nat} (same : ∀ index < length, values index = others index) :
    characters values length = characters others length := by
  refine List.map_congr_left fun index member => ?_
  rw [same index (List.mem_range.mp member)]

theorem pattern_congr {size : Nat} (same : ∀ bit < 8 * size, values bit = others bit) :
    pattern values size = pattern others size := by
  unfold pattern
  refine congrArg Nat.ofBits (funext fun bit => ?_)
  rw [same bit bit.isLt]

theorem elementAnswer_congr {field : ArrayField}
    (same : ∀ index < field.length, values index = others index) (index : Nat) :
    elementAnswer field values index = elementAnswer field others index := by
  unfold elementAnswer
  split
  · rename_i inside
    rw [same index inside]
  · rfl

theorem answer_congr (same : ∀ index < leaf.count, values index = others index)
    (access : FieldAccess) : leaf.answer values access = leaf.answer others access := by
  cases leaf with
  | number shift field =>
    have first : values 0 = others 0 := same 0 Nat.one_pos
    cases access <;> simp only [answer, first]
  | enumeration field =>
    have first : values 0 = others 0 := same 0 Nat.one_pos
    cases access <;> simp only [answer, first]
  | array field =>
    cases access <;> simp only [answer, elementAnswer_congr same]
  | text shift field =>
    have elements : ∀ index, elementAnswer field.elements values index =
        elementAnswer field.elements others index := elementAnswer_congr same
    have characters : characters values field.length = characters others field.length :=
      characters_congr same
    cases access <;> simp only [answer, elements, characters]
  | bitSet field => rfl

theorem setAnswer_congr (sound : leaf.IsSound)
    (same : ∀ index < leaf.count, values index = others index) (access : SetAccess) :
    leaf.setAnswer values access = leaf.setAnswer others access := by
  cases leaf with
  | bitSet field =>
    have whole : pattern values field.type.primitive.size =
        pattern others field.type.primitive.size :=
      pattern_congr same
    cases access with
    | raw | text => simp only [setAnswer, whole]
    | clear | change => rfl
    | test choice =>
      rw [setAnswer, setAnswer]
      cases named : field.type.choices.lookup choice with
      | none => rfl
      | some bit =>
        obtain ⟨early, late, split, _⟩ := List.lookup_eq_some_iff.mp named
        have fits :=
          sound (choice, bit) (by rw [split]; exact List.mem_append_right _ List.mem_cons_self)
        dsimp only
        rw [same bit fits]
  | number | array | text | enumeration => rfl

/-- A value of an enum is read as it was chosen. -/
theorem answer_read {field : EnumField} (sound : (enumeration field).IsSound)
    {value : EnumValue field.type} (chosen : values 0 = value.raw) :
    (enumeration field).answer values .read = .ok (.text value.text) := by
  rw [answer, chosen, EnumValue.ofRaw_raw sound]
  rfl

/-- A text is read up to its first NUL, cut to the length of its field. -/
theorem answer_readText {shift : Nat} {field : TextField} {source : List UInt8}
    (written : ∀ index < field.length, values index = Setter.character field.length source index) :
    (text shift field).answer values .readText =
      .ok (.text (field.charset.decode (Text.beforeNul (source.take field.length)))) := by
  have whole : characters (Setter.character field.length source) field.length =
      padded field.length source := by
    refine List.ext_getElem (by rw [characters, List.length_map, List.length_range, length_padded])
      ?_
    intro index _ inside
    simp only [characters, List.getElem_map, List.getElem_range, Setter.character,
      List.getElem?_eq_getElem inside, Option.getD_some, UInt8.ofNat_toNat]
  rw [answer, characters_congr written, whole, padded, Text.beforeNul_append_replicate]

/-! ### Values and bytes -/

variable {buffer other : Buffer} {base : Nat}

/-- The values of a leaf depend on its own bytes only. -/
theorem value_congr {index : Nat} (inside : index < leaf.count)
    (same : ∀ place, base + leaf.start ≤ place → place < base + leaf.start + leaf.size →
      buffer.bytes[place]? = other.bytes[place]?) :
    leaf.value buffer base index = leaf.value other base index := by
  have numbers {start size : Nat} (above : base + leaf.start ≤ start)
      (below : start + size ≤ base + leaf.start + leaf.size) :
      buffer.numberAt start size = other.numberAt start size := by
    refine congrArg ofLittleEndian (Buffer.bytesAt_congr fun place early late => ?_)
    exact same place (by omega) (by omega)
  cases leaf with
  | number shift field =>
    refine numbers ?_ ?_
    · rw [start]
      omega
    · rw [start, size]
      omega
  | enumeration field => exact numbers (Nat.le_refl _) (Nat.le_refl _)
  | bitSet field =>
    have number : buffer.numberAt (base + field.offset) field.type.primitive.size = _ :=
      numbers (Nat.le_refl _) (Nat.le_refl _)
    rw [value, value, number]
  | array field =>
    refine numbers ?_ (field.elementIndex_le base inside)
    exact Nat.le_add_right _ _
  | text shift field =>
    change index < field.length at inside
    rw [value, value, TextField.elementIndex_elements]
    refine numbers ?_ ?_
    · rw [start]
      omega
    · rw [start, size]
      omega

theorem bytes_eq_of_numberAt {start size place : Nat} (room : start + size ≤ buffer.capacity)
    (fits : start + size ≤ other.capacity)
    (same : buffer.numberAt start size = other.numberAt start size) (above : start ≤ place)
    (below : place < start + size) : buffer.bytes[place]? = other.bytes[place]? := by
  have bytes : buffer.bytesAt start size = other.bytesAt start size :=
    ofLittleEndian_inj (by rw [Buffer.length_bytesAt room, Buffer.length_bytesAt fits]) same
  have first := Buffer.getElem?_bytesAt buffer start size (place - start)
  have second := Buffer.getElem?_bytesAt other start size (place - start)
  rw [if_pos (by omega), Nat.add_sub_cancel' above] at first second
  rw [← first, ← second, bytes]

/-- Every byte of an array belongs to one of its elements. -/
theorem exists_element {field : ArrayField} {place : Nat} (above : base + field.offset ≤ place)
    (below : place < base + field.offset + field.length * field.primitive.size) :
    ∃ index < field.length, field.elementIndex base index ≤ place ∧
      place < field.elementIndex base index + field.primitive.size := by
  have positive : 0 < field.primitive.size := by
    rcases Nat.eq_zero_or_pos field.primitive.size with zero | positive
    · rw [zero, Nat.mul_zero] at below
      omega
    · exact positive
  have split := Nat.div_add_mod (place - (base + field.offset)) field.primitive.size
  have rest := Nat.mod_lt (place - (base + field.offset)) positive
  rw [Nat.mul_comm] at split
  refine ⟨(place - (base + field.offset)) / field.primitive.size, ?_, ?_, ?_⟩
  · exact Nat.div_lt_of_lt_mul (by rw [Nat.mul_comm]; omega)
  · unfold ArrayField.elementIndex
    omega
  · unfold ArrayField.elementIndex
    omega

/-- The bytes of a leaf are told by its values. -/
theorem bytes_eq_of_value {place : Nat} (room : base + leaf.start + leaf.size ≤ buffer.capacity)
    (fits : base + leaf.start + leaf.size ≤ other.capacity)
    (same : ∀ index < leaf.count, leaf.value buffer base index = leaf.value other base index)
    (above : base + leaf.start ≤ place) (below : place < base + leaf.start + leaf.size) :
    buffer.bytes[place]? = other.bytes[place]? := by
  cases leaf with
  | number shift field =>
    have number := same 0 Nat.one_pos
    rw [value, value, Nat.add_assoc] at number
    exact bytes_eq_of_numberAt room fits number above below
  | enumeration field => exact bytes_eq_of_numberAt room fits (same 0 Nat.one_pos) above below
  | bitSet field =>
    have number : buffer.numberAt (base + field.offset) field.type.primitive.size =
        other.numberAt (base + field.offset) field.type.primitive.size :=
      calc buffer.numberAt (base + field.offset) field.type.primitive.size
        _ = pattern ((bitSet field).value buffer base) field.type.primitive.size :=
          (pattern_testBit (Buffer.numberAt_lt room)).symm
        _ = pattern ((bitSet field).value other base) field.type.primitive.size :=
          pattern_congr same
        _ = other.numberAt (base + field.offset) field.type.primitive.size :=
          pattern_testBit (Buffer.numberAt_lt fits)
    exact bytes_eq_of_numberAt room fits number above below
  | array field =>
    obtain ⟨index, inside, early, late⟩ := exists_element above below
    have upto := field.elementIndex_le base inside
    exact bytes_eq_of_numberAt (Nat.le_trans upto room) (Nat.le_trans upto fits) (same index inside)
      early late
  | text shift field =>
    rw [start, size] at room fits below
    rw [start] at above
    have inside : place - (base + (shift + field.offset)) < field.length := by omega
    have number := same _ inside
    rw [value, value, TextField.elementIndex_elements,
      show base + shift + field.offset + (place - (base + (shift + field.offset))) =
        place by omega] at number
    exact bytes_eq_of_numberAt (by omega) (by omega) number (Nat.le_refl _) (by omega)

end Values

end Leaf

/-! ### Constants -/

/-- Work that gives the same on every wire of a version. -/
def Fixed {α : Type} (known : Nat) (work : Codec α) : Prop :=
  ∃ outcome, ∀ wire : Wire, wire.cursor.version = known → work.run wire = (outcome, wire)

namespace Fixed

variable {α β : Type} {known : Nat}

theorem pure (value : α) : Fixed known (pure value) := ⟨.ok value, fun _ _ => rfl⟩

theorem ofOutcome (outcome : Outcome CodecError α) : Fixed known (ofOutcome outcome) :=
  ⟨outcome, fun _ _ => rfl⟩

theorem bind {first : Codec α} {next : α → Codec β} (fixed : Fixed known first)
    (each : ∀ {wire value after}, first.run wire = (.ok value, after) → Fixed known (next value)) :
    Fixed known (first >>= next) := by
  obtain ⟨outcome, ended⟩ := fixed
  cases outcome with
  | error halt =>
    refine ⟨.error halt, fun wire same => ?_⟩
    rw [run_bind, ended wire same]
  | ok value =>
    obtain ⟨outcome, continued⟩ := each (ended ⟨.ofList [], ⟨0, known⟩⟩ rfl)
    refine ⟨outcome, fun wire same => ?_⟩
    rw [run_bind_of_ok (ended wire same), continued wire same]

theorem viewAt (place : Nat → α) (since offset base : Nat) :
    Fixed known (viewAt place since offset base) := by
  refine bind ⟨.ok (decide (known < since)), fun wire same => ?_⟩ fun {_ older _} _ => ?_
  · rw [run_isOlder, same]
  · cases older with
    | true => exact pure none
    | false => exact bind (bind (ofOutcome _) fun _ => pure _) fun _ => pure _

end Fixed

theorem Part.access_fixed {known shift base : Nat} {part : Part}
    (constant : part.leaf? shift = none) (access : FieldAccess) :
    Fixed known (part.access base access) := by
  cases part with
  | number | text => cases constant
  | constantNumber name value =>
    cases access with
    | read => exact .pure _
    | _ => exact .pure _
  | constantText constant =>
    cases access with
    | readAt index => exact .bind (.ofOutcome _) fun _ => .pure _
    | readText | copy => exact .pure _
    | _ => exact .pure _

/-- What has no bytes of its own is the same in every message. -/
theorem Address.ask_fixed {shape : MessageShape} {address : Address} {member : Member} {known : Nat}
    (named : Member.find? shape.members address.member = some member)
    (absent : shape.leaf? address = none) (access : FieldAccess) (base : Nat) :
    Fixed known ((address.ask access).work (shape.block base)) := by
  have constant : member.leaf? address.part = none := by rwa [MessageShape.leaf?, named] at absent
  obtain ⟨name, part⟩ := address
  change Member.find? (shape.block base).members name = some member at named
  cases part with
  | none =>
    show Fixed known ((shape.block base).access name access)
    rw [Element.access_member named]
    cases member with
    | number | array | text | enumeration | bitSet => cases constant
    | composite field => exact .pure _
    | constantEnum place type value =>
      cases access with
      | read => exact .pure _
      | _ => exact .pure _
  | some partName =>
    show Fixed known ((shape.block base).accessComposite name [.part partName access])
    rw [Element.accessComposite, named]
    cases member with
    | number | array | text | enumeration | bitSet | constantEnum => exact .pure _
    | composite field =>
      dsimp only
      rw [field.view?_eq]
      refine .bind (.viewAt _ _ _ _) fun {_ view? _} viewed => ?_
      cases view? with
      | none => exact .pure _
      | some view =>
        rw [run_viewAt_eq_some viewed]
        dsimp only
        rw [CompositeView.access_one, CompositeView.accessOne]
        cases found : field.type.parts.find? fun part => part.name == partName with
        | none => exact .pure _
        | some part =>
          have fixed : part.leaf? field.offset = none := by
            rwa [Member.leaf?, Option.bind_some, found, Option.bind_some] at constant
          exact Part.access_fixed fixed access

/-! ### Versions -/

/-- A separate message is new enough for all its leaves. -/
theorem MessageShape.Separate.since_le {shape : MessageShape} (separate : shape.Separate)
    {address : Address} {leaf : Leaf}
    (found : shape.leaf? address = some leaf) : leaf.since ≤ shape.version := by
  obtain ⟨member, named, leafOf⟩ := Option.bind_eq_some_iff.mp found
  have known := List.all_eq_true.mp separate.known member (List.mem_of_find?_eq_some named)
  obtain ⟨name, part⟩ := address
  cases member with
  | number field | array field | text field | enumeration field | bitSet field =>
    cases part with
    | some => cases leafOf
    | none =>
      cases leafOf
      exact of_decide_eq_true known
  | constantEnum => cases leafOf
  | composite field =>
    cases part with
    | none => cases leafOf
    | some partName =>
      obtain ⟨part, partNamed, partLeaf⟩ := Option.bind_eq_some_iff.mp leafOf
      rw [Member.isKnown, Bool.and_eq_true] at known
      have new := List.all_eq_true.mp known.2 part (List.mem_of_find?_eq_some partNamed)
      cases part with
      | number inner => cases partLeaf; exact of_decide_eq_true new
      | text inner => cases partLeaf; exact of_decide_eq_true new
      | constantNumber | constantText => cases partLeaf

end Sbe.Codec
