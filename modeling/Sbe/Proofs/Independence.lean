import Sbe.Proofs.BlockGetters

/-!
**Fields of a block are independent.**

After any run of setters a block holds, for each field, the values that were last stored in it, and
what it held before where none was stored. So the getters depend on the last values only, and so do
the bytes.

* `lastStored`: the value that a run of setters leaves at a place;
* `MessageShape.Written`, `MessageShape.exists_setAll`: what every run of setters does to a wire;
* `MessageShape.Written.buffer_eq`, `MessageShape.Written.recalls`: the bytes and the getters after
  it;
* `MessageShape.separate_of_leaves`: how a message is seen to have fields with bytes of their own.
-/

namespace Sbe

namespace Codec

/-! ### Runs of setters -/

/-- The value that a setter stores at an index of the leaf of an address. -/
def Setter.storesAt (address : Address) (leaf : Leaf) (index : Nat) (setter : Setter) :
    Option Nat :=
  if setter.address = address then setter.stores leaf index else none

/-- The value that a run of setters stores last at an index of the leaf of an address. -/
def lastStored (address : Address) (leaf : Leaf) (index : Nat) (setters : List Setter) :
    Option Nat :=
  setters.reverse.findSome? (Setter.storesAt address leaf index)

theorem lastStored_cons (address : Address) (leaf : Leaf) (index : Nat) (setter : Setter)
    (rest : List Setter) : lastStored address leaf index (setter :: rest) =
      (lastStored address leaf index rest).or (setter.storesAt address leaf index) := by
  rw [lastStored, List.reverse_cons, List.findSome?_append, List.findSome?_singleton]
  rfl

namespace MessageShape

/-- The place of a byte is outside of every leaf. -/
def IsBetween (shape : MessageShape) (base place : Nat) : Prop :=
  ∀ {address leaf}, shape.leaf? address = some leaf →
    place < base + leaf.start ∨ base + leaf.start + leaf.size ≤ place

/-- What a run of setters does to a wire. -/
structure Written (shape : MessageShape) (base : Nat) (setters : List Setter)
    (before after : Wire) : Prop where
  cursor : after.cursor = before.cursor
  capacity : after.buffer.capacity = before.buffer.capacity
  outside : ∀ place, shape.IsBetween base place →
    after.buffer.bytes[place]? = before.buffer.bytes[place]?
  values : ∀ {address leaf}, shape.leaf? address = some leaf → ∀ index < leaf.count,
    leaf.value after.buffer base index =
      (lastStored address leaf index setters).getD (leaf.value before.buffer base index)

/-- A message being written, with the writer in its block. -/
def writerAt (shape : MessageShape) (base : Nat) (wire : Wire) : Writer :=
  ⟨wire, shape.block base, []⟩

/-- A run of setters on a block. -/
def setAll (shape : MessageShape) (base : Nat) (setters : List Setter) (wire : Wire) :
    Option Writer :=
  (shape.writerAt base wire).performAll (setters.map fun setter => .access setter.access)

variable {shape : MessageShape} {base : Nat} {before middle after : Wire}

theorem Written.nil (wire : Wire) : shape.Written base [] wire wire :=
  ⟨rfl, rfl, fun _ _ => rfl, fun _ _ _ => rfl⟩

/-- A setter before a run counts where the run stores nothing. -/
theorem Written.cons (separate : shape.Separate) {setter : Setter} {rest : List Setter}
    {leaf : Leaf} (found : shape.leaf? setter.address = some leaf)
    (stored : leaf.Stored base (setter.stores leaf) before middle)
    (written : shape.Written base rest middle after) :
    shape.Written base (setter :: rest) before after := by
  refine ⟨written.cursor.trans stored.cursor, written.capacity.trans stored.capacity, ?_, ?_⟩
  · intro place between
    exact (written.outside place between).trans (stored.outside place (between found))
  · intro address other there index inside
    have first : other.value middle.buffer base index =
        (setter.storesAt address other index).getD (other.value before.buffer base index) := by
      unfold Setter.storesAt
      by_cases same : setter.address = address
      · rw [if_pos same]
        rw [← same, found] at there
        cases there
        exact stored.values index inside
      · -- The setter writes between the bytes of its own leaf, which are none of this one's.
        rw [if_neg same]
        have apart := separate.apart found there same
        exact Leaf.value_congr inside fun place above below => stored.outside place (by omega)
    rw [written.values there index inside, first, lastStored_cons]
    cases lastStored address other index rest <;> rfl

/-- Every run of setters ends without a fault, and leaves the last values. -/
theorem exists_setAll (separate : shape.Separate) (small : base + shape.blockLength < wordBound)
    {setters : List Setter}
    (inBlock : ∀ setter ∈ setters, (shape.leaf? setter.address).isSome = true)
    (version : before.cursor.version = shape.version)
    (room : base + shape.blockLength ≤ before.buffer.capacity) :
    ∃ after, shape.setAll base setters before = some (shape.writerAt base after) ∧
      shape.Written base setters before after := by
  induction setters generalizing before with
  | nil => exact ⟨before, rfl, .nil before⟩
  | cons setter rest ih =>
    obtain ⟨here, later⟩ := List.forall_mem_cons.mp inBlock
    obtain ⟨leaf, found⟩ := Option.isSome_iff_exists.mp here
    obtain ⟨outcome, middle, ended, going, stored⟩ :=
      Setter.run_work separate version room small found
    obtain ⟨after, ran, written⟩ := ih later (by rw [stored.cursor, version])
      (by rw [stored.capacity]; exact room)
    refine ⟨after, ?_, .cons separate found stored written⟩
    rw [← ran]
    rw [setAll, List.map_cons, Writer.performAll, writerAt, Writer.perform_access [] ended]
    cases outcome with
    | ok datum => rfl
    | error halt =>
      cases halt with
      | refused cause => rfl
      | fault => exact absurd rfl going

/-- Runs that store the same last values leave the same bytes. -/
theorem Written.buffer_eq (separate : shape.Separate)
    (room : base + shape.blockLength ≤ before.buffer.capacity) {setters others : List Setter}
    {after last : Wire} (written : shape.Written base setters before after)
    (rewritten : shape.Written base others before last)
    (same : ∀ {address leaf}, shape.leaf? address = some leaf → ∀ index < leaf.count,
      lastStored address leaf index others = lastStored address leaf index setters) :
    last.buffer = after.buffer := by
  refine congrArg Buffer.mk (Array.ext_getElem? fun place => ?_)
  by_cases between : shape.IsBetween base place
  · exact (rewritten.outside place between).trans (written.outside place between).symm
  · unfold IsBetween at between
    push Not at between
    obtain ⟨address, leaf, found, above, below⟩ := between
    have inside := separate.inside found
    refine Leaf.bytes_eq_of_value (by rw [rewritten.capacity]; omega)
      (by rw [written.capacity]; omega) (fun index small => ?_) above below
    rw [rewritten.values found index small, written.values found index small,
      same found index small]

end MessageShape

/-! ### Getters after setters -/

namespace MessageShape

/-- A block whose getters find, in each field, the values that were last stored there, and what it
held before where none was stored. -/
structure Recalls (shape : MessageShape) (base : Nat) (before : Buffer) (setters : List Setter)
    (wire : Wire) : Prop where
  field : ∀ {address leaf}, shape.leaf? address = some leaf → ∀ access : FieldAccess,
    access.sets = false → ((address.ask access).work (shape.block base)).run wire =
      (leaf.answer (fun index => (lastStored address leaf index setters).getD
        (leaf.value before base index)) access, wire)
  bitSet : ∀ {name leaf}, shape.leaf? ⟨name, none⟩ = some leaf → ∀ access : SetAccess,
    access.sets = false → ((Access.bitSet name access).work (shape.block base)).run wire =
      (leaf.setAnswer (fun index => (lastStored ⟨name, none⟩ leaf index setters).getD
        (leaf.value before base index)) access, wire)
  /-- An enum that was last set to a value is read as that value. -/
  chosen : ∀ {address field} {value : EnumValue field.type},
    shape.leaf? address = some (.enumeration field) →
    lastStored address (.enumeration field) 0 setters = some value.raw →
    ((address.ask .read).work (shape.block base)).run wire = (.ok (.text value.text), wire)
  /-- A text that was last set to some bytes is read as they are, cut to its length and at a NUL. -/
  text : ∀ {address shift field source}, shape.leaf? address = some (.text shift field) →
    (∀ index < field.length, lastStored address (.text shift field) index setters =
      some (Setter.character field.length source index)) →
    ((address.ask .readText).work (shape.block base)).run wire =
      (.ok (.text (field.charset.decode (Text.beforeNul (source.take field.length)))), wire)
  /-- A constant is what it was. -/
  constant : ∀ {address}, (Member.find? shape.members address.member).isSome = true →
    shape.leaf? address = none → ∀ access, ∃ outcome, ∀ buffer,
      ((address.ask access).work (shape.block base)).run (shape.opened base buffer) =
        (outcome, shape.opened base buffer)

variable {shape : MessageShape} {base : Nat} {before after : Wire}

theorem Written.recalls (separate : shape.Separate) (small : base + shape.blockLength < wordBound)
    (version : before.cursor.version = shape.version)
    (room : base + shape.blockLength ≤ before.buffer.capacity) {setters : List Setter}
    (written : shape.Written base setters before after) :
    shape.Recalls base before.buffer setters after := by
  have late : after.cursor.version = shape.version := by rw [written.cursor, version]
  have wide {address : Address} {leaf : Leaf} (found : shape.leaf? address = some leaf) :
      base + leaf.start + leaf.size ≤ after.buffer.capacity := by
    have inside := separate.inside found
    rw [written.capacity]
    omega
  have field {address : Address} {leaf : Leaf} (found : shape.leaf? address = some leaf)
      (access : FieldAccess) (getter : access.sets = false) :
      ((address.ask access).work (shape.block base)).run after =
        (leaf.answer (fun index => (lastStored address leaf index setters).getD
          (leaf.value before.buffer base index)) access, after) := by
    rw [run_ask separate late small found access,
      Leaf.run_fieldWork getter (late ▸ separate.since_le found) (wide found),
      Leaf.answer_congr (written.values found)]
  refine ⟨field, ?_, ?_, ?_, ?_⟩
  · intro name leaf found access getter
    rw [run_askSet separate late small found access, Leaf.run_setWork getter (wide found),
      Leaf.setAnswer_congr (separate.sound found) (written.values found)]
  · intro address enum value found chosen
    rw [field found .read rfl, Leaf.answer_read (separate.sound found)]
    rw [chosen]
    rfl
  · intro address shift inner source found stored
    rw [field found .readText rfl, Leaf.answer_readText]
    intro index inside
    rw [stored index inside]
    rfl
  · intro address known absent access
    obtain ⟨member, named⟩ := Option.isSome_iff_exists.mp known
    have fixed : Fixed shape.version _ := Address.ask_fixed named absent access base
    obtain ⟨outcome, ended⟩ := fixed
    exact ⟨outcome, fun buffer => ended (shape.opened base buffer) rfl⟩

end MessageShape

/-! ### Blocks whose fields are apart -/

/-- The leaves of a member with their addresses. -/
def Member.leaves : Member → List (Address × Leaf)
  | composite field => field.type.parts.filterMap fun part =>
    (part.leaf? field.offset).map (⟨field.name, some part.name⟩, ·)
  | member => ((member.leaf? none).map (⟨member.place.name, none⟩, ·)).toList

theorem Member.mem_leaves {member : Member} {address : Address} {leaf : Leaf}
    (named : member.place.name = address.member) (found : member.leaf? address.part = some leaf) :
    (address, leaf) ∈ member.leaves := by
  obtain ⟨name, part⟩ := address
  subst named
  cases member with
  | number | array | text | enumeration | bitSet =>
    cases part with
    | some => cases found
    | none =>
      cases found
      exact List.mem_singleton.mpr rfl
  | constantEnum => cases found
  | composite field =>
    cases part with
    | none => cases found
    | some partName =>
      obtain ⟨part, partNamed, partLeaf⟩ := Option.bind_eq_some_iff.mp found
      have same := List.find?_some partNamed
      rw [beq_iff_eq] at same
      refine List.mem_filterMap.mpr ⟨part, List.mem_of_find?_eq_some partNamed, ?_⟩
      rw [partLeaf, same]
      rfl

instance (type : EnumType) : Decidable type.IsDistinct :=
  decidable_of_iff ((type.variants.map Prod.snd).Nodup ∧ type.null ∉ type.variants.map Prod.snd ∧
      (∀ variant ∈ type.variants, variant.2 < patternCount type.primitive.size) ∧
      type.null < patternCount type.primitive.size)
    ⟨fun ⟨variants, null, fits, nullFits⟩ => ⟨variants, null, fits, nullFits⟩,
      fun ⟨variants, null, fits, nullFits⟩ => ⟨variants, null, fits, nullFits⟩⟩

instance : (leaf : Leaf) → Decidable leaf.IsSound
  | .enumeration field => inferInstanceAs (Decidable field.type.IsDistinct)
  | .bitSet field =>
    inferInstanceAs
      (Decidable (∀ choice ∈ field.type.choices, choice.2 < 8 * field.type.primitive.size))
  | .number .. | .array _ | .text .. => inferInstanceAs (Decidable True)

namespace MessageShape

/-- The leaves of a message with their addresses. -/
def leaves (shape : MessageShape) : List (Address × Leaf) := shape.members.flatMap Member.leaves

theorem mem_leaves {shape : MessageShape} {address : Address} {leaf : Leaf}
    (found : shape.leaf? address = some leaf) : (address, leaf) ∈ shape.leaves := by
  obtain ⟨member, named, leafOf⟩ := Option.bind_eq_some_iff.mp found
  have same := List.find?_some named
  rw [beq_iff_eq] at same
  exact List.mem_flatMap.mpr
    ⟨member, List.mem_of_find?_eq_some named, Member.mem_leaves same leafOf⟩

theorem separate_of_leaves {shape : MessageShape}
    (known : shape.members.all (Member.isKnown shape.version) = true)
    (sound : ∀ entry ∈ shape.leaves,
      entry.2.start + entry.2.size ≤ shape.blockLength ∧ entry.2.IsSound)
    (apart : ∀ entry ∈ shape.leaves, ∀ other ∈ shape.leaves, entry.1 ≠ other.1 →
      entry.2.start + entry.2.size ≤ other.2.start ∨ other.2.start + other.2.size ≤ entry.2.start) :
    shape.Separate where
  known := known
  inside found := (sound _ (mem_leaves found)).1
  apart found there different := apart _ (mem_leaves found) _ (mem_leaves there) different
  sound found := (sound _ (mem_leaves found)).2

end MessageShape

end Codec

namespace Demo

open Codec

theorem Car.shape_separate : Car.shape.Separate :=
  MessageShape.separate_of_leaves (by decide) (by decide +kernel) (by decide +kernel)

theorem Service.shape_separate : Service.shape.Separate :=
  MessageShape.separate_of_leaves (by decide) (by decide +kernel) (by decide +kernel)

/-- The fields of a block are independent. Any run of setters, in any order and with repetitions,
leaves the limit and the bytes outside of the block; the getters find the last values; and another
run with the same last values ends in the same bytes. -/
theorem block_fields_independent {shape : MessageShape}
    (either : shape = Car.shape ∨ shape = Service.shape) {base : Nat} {buffer : Buffer}
    (room : base + shape.blockLength ≤ buffer.capacity)
    (small : base + shape.blockLength < wordBound) {setters : List Setter}
    (inBlock : ∀ setter ∈ setters, (shape.leaf? setter.address).isSome = true) :
    (shape.openWrite base).run (MessageShape.fresh buffer) =
        (.ok ⟨shape, base, shape.blockLength⟩, shape.opened base buffer) ∧
      ∃ after,
        shape.setAll base setters (shape.opened base buffer) =
          some (shape.writerAt base (shape.opened base after)) ∧
        (∀ place, place < base ∨ base + shape.blockLength ≤ place →
          after.bytes[place]? = buffer.bytes[place]?) ∧
        (shape.openAt base shape.blockLength shape.version).run (MessageShape.fresh after) =
          (.ok ⟨shape, base, shape.blockLength⟩, shape.opened base after) ∧
        shape.Recalls base buffer setters (shape.opened base after) ∧
        ∀ others : List Setter, (∀ setter ∈ others, (shape.leaf? setter.address).isSome = true) →
          (∀ address leaf, shape.leaf? address = some leaf → ∀ index < leaf.count,
            lastStored address leaf index others = lastStored address leaf index setters) →
          shape.setAll base others (shape.opened base buffer) =
            some (shape.writerAt base (shape.opened base after)) := by
  have separate : shape.Separate := by
    rcases either with rfl | rfl
    · exact Car.shape_separate
    · exact Service.shape_separate
  have opens (buffer : Buffer) :
      (shape.openAt base shape.blockLength shape.version).run (MessageShape.fresh buffer) =
        (.ok ⟨shape, base, shape.blockLength⟩, shape.opened base buffer) := by
    rw [MessageShape.openAt, run_bind_of_ok (run_addSize small _)]
    rfl
  have wire {setters : List Setter} {after : Wire}
      (written : shape.Written base setters (shape.opened base buffer) after) :
      after = shape.opened base after.buffer := congrArg (Wire.mk after.buffer) written.cursor
  have version : (shape.opened base buffer).cursor.version = shape.version := rfl
  obtain ⟨after, ran, written⟩ := MessageShape.exists_setAll separate small inBlock version room
  have recalls := written.recalls separate small rfl room
  refine ⟨opens buffer, after.buffer, ?_, ?_, opens after.buffer, ?_, ?_⟩
  · rw [ran, ← wire written]
  · intro place outside
    refine written.outside place fun found => ?_
    have inside := separate.inside found
    omega
  · rw [← wire written]
    exact recalls
  · intro others known same
    obtain ⟨last, again, rewritten⟩ := MessageShape.exists_setAll separate small known version room
    have buffers := written.buffer_eq separate room rewritten fun found => same _ _ found
    rw [again, wire rewritten, buffers]

/-- Setters of a car, some of which set again what others have set. -/
def Car.changes : List Setter :=
  [.number ⟨"modelYear", none⟩ 2013, .text ⟨"vehicleCode", none⟩ "abcdefgh",
    .change "extras" "sunRoof" true, .element ⟨"someNumbers", none⟩ 2 7,
      .choose ⟨"code", none⟩ (some "B"),
    .number ⟨"engine", some "capacity"⟩ 65537, .clear "extras",
      .change "extras" "cruiseControl" true,
    .element ⟨"someNumbers", none⟩ 4 9, .number ⟨"modelYear", none⟩ 2014]

theorem Car.changes_independent :
    ∃ after, Car.shape.setAll 1 Car.changes
        (Car.shape.opened 1 (.ofList (List.replicate 44 7))) =
          some (Car.shape.writerAt 1 (Car.shape.opened 1 after)) ∧
      after.bytes[0]? = some 7 ∧ after.bytes[43]? = some 7 ∧
      ((Access.field "modelYear" .read).work (Car.shape.block 1)).run (Car.shape.opened 1 after) =
        (.ok (.number .uint16 2014), Car.shape.opened 1 after) ∧
      ((Access.field "vehicleCode" .readText).work (Car.shape.block 1)).run
        (Car.shape.opened 1 after) =
        (.ok (.text "abcdef"), Car.shape.opened 1 after) ∧
      ((Access.bitSet "extras" (.test "sunRoof")).work (Car.shape.block 1)).run
        (Car.shape.opened 1 after) = (.ok (.flag false), Car.shape.opened 1 after) ∧
      ((Access.composite "engine" (.part "capacity" .read)).work (Car.shape.block 1)).run
        (Car.shape.opened 1 after) = (.ok (.number .uint16 1), Car.shape.opened 1 after) ∧
      ((Access.field "available" .readRaw).work (Car.shape.block 1)).run
        (Car.shape.opened 1 after) =
        (.ok (.number .uint8 7), Car.shape.opened 1 after) := by
  have inBlock : ∀ setter ∈ Car.changes, (Car.shape.leaf? setter.address).isSome = true := by
    decide +kernel
  have large : 1 + Car.shape.blockLength ≤ (Buffer.ofList (List.replicate 44 7)).capacity := by
    decide
  obtain ⟨_, after, ran, outside, _, recalls, _⟩ :=
    block_fields_independent (.inl rfl) large (by decide) inBlock
  have year : shape.leaf? ⟨"modelYear", none⟩ = some (.number 0 modelYearField) := rfl
  have code : shape.leaf? ⟨"vehicleCode", none⟩ = some (.text 0 vehicleCodeField) := rfl
  have extras : shape.leaf? ⟨"extras", none⟩ = some (.bitSet extrasField) := rfl
  have capacity : shape.leaf? ⟨"engine", some "capacity"⟩ =
    some (.number 35 Engine.capacityField) := rfl
  have available : shape.leaf? ⟨"available", none⟩ = some (.enumeration availableField) := rfl
  exact ⟨after, ran, outside 0 (by decide), outside 43 (by decide), recalls.field year .read rfl,
    recalls.field code .readText rfl, recalls.bitSet extras (.test "sunRoof") rfl,
    recalls.field capacity .read rfl, recalls.field available .readRaw rfl⟩

end Demo

end Sbe
