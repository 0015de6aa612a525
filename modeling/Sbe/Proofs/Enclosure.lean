import Sbe.Proofs.Writer

/-!
**Writing stays inside the message.**

The block of a message lies behind its header, and each repetition of a group is placed at the
limit, so setters write between the header and the limit. Until its first repetition is taken a
group has its block at the start of the buffer, where its setters reach the front of the header.

* `Element.Sound`, `Writer.Sound`: where the blocks of a message being written lie;
* `Sound.perform`, `Sound.performAll`: what one operation and a run leave of the header and of the
  bytes behind the message;
* `performAll_stays_inside`: what a run leaves of the buffer that it started with;
* `Demo.writing_stays_inside`: the same of the messages of the demonstration schema.
-/

namespace Sbe

namespace Codec

/-! ### Where blocks lie -/

/-- Where the version stands in a header. -/
def Header.versionIndex : Nat := 6

/-- A group whose blocks hold their members and are short, as are those of all groups inside. -/
inductive GroupShape.Packed : GroupShape → Prop
  | intro {shape : GroupShape} (short : shape.blockLength ≤ Header.versionIndex)
      (block : blockExtent shape.members ≤ shape.blockLength)
      (groups : ∀ inner ∈ shape.groups, Packed inner) : Packed shape

/-- A message whose block holds its members, with groups of that kind. -/
structure MessageShape.Packed (shape : MessageShape) : Prop where
  block : blockExtent shape.members ≤ shape.blockLength
  groups : ∀ group ∈ shape.groups, group.Packed

namespace Element

/-- Whether an element is a group of which no repetition has been taken. -/
def isWaiting : Element → Bool
  | message _ => false
  | group _ view => view.taken == 0

/-- The block of a message, and that of a repetition, lies between the header and the limit. A group
that waits for its first repetition has its block at the start of the buffer instead. -/
inductive Sound (limit : Nat) : Element → Prop
  | message {view : MessageView} (packed : view.shape.Packed)
      (above : headerType.encodedLength ≤ view.offset)
      (below : view.offset + view.shape.blockLength ≤ limit) : Sound limit (.message view)
  | waiting {shape : GroupShape} {view : GroupView} (packed : shape.Packed)
      (length : view.blockLength = shape.blockLength) (untaken : view.taken = 0)
      (origin : view.offset = 0) : Sound limit (.group shape view)
  | placed {shape : GroupShape} {view : GroupView} (packed : shape.Packed)
      (length : view.blockLength = shape.blockLength) (taken : view.taken ≠ 0)
      (above : headerType.encodedLength ≤ view.offset)
      (below : view.offset + shape.blockLength ≤ limit) : Sound limit (.group shape view)

theorem Sound.mono {limit further : Nat} {element : Element} (forward : limit ≤ further)
    (sound : element.Sound limit) : element.Sound further := by
  cases sound with
  | message packed above below => exact .message packed above (Nat.le_trans below forward)
  | waiting packed length untaken origin => exact .waiting packed length untaken origin
  | placed packed length taken above below =>
    exact .placed packed length taken above (Nat.le_trans below forward)

theorem Sound.packed {limit : Nat} {element : Element} (sound : element.Sound limit)
    {name : String} {shape : GroupShape} (found : element.group? name = some shape) :
    shape.Packed := by
  have member : shape ∈ element.groups := List.mem_of_find?_eq_some found
  cases sound with
  | message packed above below => exact packed.groups shape member
  | waiting packed length untaken origin =>
    cases packed with
    | intro short block groups => exact groups shape member
  | placed packed length taken above below =>
    cases packed with
    | intro short block groups => exact groups shape member

theorem Sound.of_group {limit : Nat} {shape : GroupShape} {view : GroupView}
    (sound : (group shape view).Sound limit) :
    shape.Packed ∧ view.blockLength = shape.blockLength := by
  cases sound with
  | waiting packed length untaken origin => exact ⟨packed, length⟩
  | placed packed length taken above below => exact ⟨packed, length⟩

/-- A setter writes between the header and the limit, or, in a group that waits for its first
repetition, in front of the version of the header. -/
theorem Sound.access_confined {limit floor : Nat} {element : Element} (sound : element.Sound limit)
    (behind : headerType.encodedLength ≤ limit) (access : Access)
    (timely : (access.sets element && element.isWaiting) = true → Header.versionIndex ≤ floor) :
    ∃ low high, Confined low high (access.work element) ∧
      (headerType.encodedLength ≤ low ∨ high ≤ floor) ∧ high ≤ limit := by
  cases sound with
  | @message view packed above below =>
    have block := packed.block
    refine ⟨view.offset, view.offset + blockExtent view.shape.members, ?_, .inl above, by omega⟩
    exact access.confined fun _ => ⟨Nat.le_refl _, Nat.le_refl _⟩
  | @placed shape view packed length taken above below =>
    cases packed with
    | intro short block groups =>
      refine ⟨view.offset, view.offset + blockExtent shape.members, ?_, .inl above, by omega⟩
      exact access.confined fun _ => ⟨Nat.le_refl _, Nat.le_refl _⟩
  | @waiting shape view packed length untaken origin =>
    -- The offset is 0 and the block is short, so a setter stays in front of the version.
    by_cases setter : access.sets (.group shape view) = true
    · have room := timely (by rw [setter, isWaiting, untaken]; rfl)
      have front : Header.versionIndex ≤ headerType.encodedLength := by decide
      cases packed with
      | intro short block groups =>
        refine ⟨0, Header.versionIndex, access.confined fun _ => ⟨Nat.zero_le _, ?_⟩, .inr room,
          by omega⟩
        show view.offset + blockExtent shape.members ≤ Header.versionIndex
        omega
    · exact ⟨0, 0, access.confined fun set => absurd set setter, .inr (Nat.zero_le _),
        Nat.zero_le _⟩

end Element

/-- The header from an index on and everything behind the limit are as before. -/
structure Kept (floor : Nat) (before after : Wire) : Prop where
  capacity : after.buffer.capacity = before.buffer.capacity
  forward : before.cursor.limit ≤ after.cursor.limit
  bytes : ∀ index, floor ≤ index ∧ index < headerType.encodedLength ∨ after.cursor.limit ≤ index →
    after.buffer.bytes[index]? = before.buffer.bytes[index]?

namespace Kept

variable {floor : Nat} {before middle after : Wire}

theorem refl (floor : Nat) (wire : Wire) : Kept floor wire wire :=
  ⟨rfl, Nat.le_refl _, fun _ _ => rfl⟩

theorem trans (first : Kept floor before middle) (second : Kept floor middle after) :
    Kept floor before after where
  capacity := second.capacity.trans first.capacity
  forward := Nat.le_trans first.forward second.forward
  bytes index outside := by
    have late := second.forward
    rw [second.bytes index outside, first.bytes index (by omega)]

theorem of_within {low high : Nat} (within : before.Within low high after)
    (behind : headerType.encodedLength ≤ before.cursor.limit)
    (apart : headerType.encodedLength ≤ low ∨ high ≤ floor) (below : high ≤ before.cursor.limit) :
    Kept floor before after where
  capacity := within.capacity
  forward := within.forward
  bytes index outside := by
    have forward := within.forward
    exact within.bytes index (by omega) (by omega)

end Kept

namespace Writer

/-- Whether an operation sets a field of a group before the first repetition is taken. -/
def isPremature (writer : Writer) : Operation → Bool
  | .access access => access.sets writer.focus && writer.focus.isWaiting
  | _ => false

/-- Whether no operation of a run is premature. -/
def isTimely (writer : Writer) : List Operation → Bool
  | [] => true
  | operation :: rest =>
    !writer.isPremature operation && (writer.perform operation).2.isTimely rest

/-- All blocks of a writer are where they should be. -/
structure Sound (writer : Writer) : Prop where
  header : headerType.encodedLength ≤ writer.wire.cursor.limit
  focus : writer.focus.Sound writer.wire.cursor.limit
  around : ∀ outer ∈ writer.around, outer.Sound writer.wire.cursor.limit

theorem Sound.on_wire {writer : Writer} {wire : Wire} (sound : writer.Sound)
    (forward : writer.wire.cursor.limit ≤ wire.cursor.limit) : Sound { writer with wire } where
  header := Nat.le_trans sound.header forward
  focus := sound.focus.mono forward
  around outer member := (sound.around outer member).mono forward

theorem Sound.access {writer after : Writer} {floor : Nat} {access : Access} (sound : writer.Sound)
    (timely : writer.isPremature (.access access) = true → Header.versionIndex ≤ floor)
    (done : writer.access access = (.ok (), after)) :
    after.Sound ∧ Kept floor writer.wire after.wire := by
  obtain ⟨datum, wire, ran, rfl⟩ := act_eq_ok done
  obtain ⟨low, high, confined, apart, below⟩ :=
    sound.focus.access_confined sound.header access timely
  have within := confined.done ran
  exact ⟨sound.on_wire within.forward, .of_within within sound.header apart below⟩

theorem Sound.openGroup {writer after : Writer} {floor : Nat} {name : String} {count : Nat}
    (sound : writer.Sound) (done : writer.openGroup name count = (.ok (), after)) :
    after.Sound ∧ Kept floor writer.wire after.wire := by
  unfold Writer.openGroup at done
  split at done
  · cases done
    exact ⟨sound, .refl floor _⟩
  · rename_i shape found
    obtain ⟨view, wire, ran, rfl⟩ := act_eq_ok done
    have within := (shape.openWrite_confined count 0 0).done ran
    have moved := sound.on_wire within.forward
    refine ⟨⟨moved.header, ?_, ?_⟩, .of_within within sound.header (.inr (Nat.zero_le _))
      (Nat.zero_le _)⟩
    · rw [(GroupShape.run_openWrite_eq_ok ran).1]
      exact .waiting (sound.focus.packed found) rfl rfl rfl
    · exact List.forall_mem_cons.mpr ⟨moved.focus, moved.around⟩

theorem Sound.next {writer after : Writer} {floor : Nat} (sound : writer.Sound)
    (done : writer.perform .next = (.ok (), after)) :
    after.Sound ∧ Kept floor writer.wire after.wire := by
  obtain ⟨wire, focus, around⟩ := writer
  cases focus with
  | message view =>
    cases done
    exact ⟨sound, .refl floor _⟩
  | group shape view =>
    obtain ⟨packed, length⟩ := sound.focus.of_group
    rcases ended : GroupView.advance.run (view, wire) with ⟨outcome, moved, further⟩
    rw [perform_next around ended] at done
    obtain ⟨rfl, rfl⟩ := Prod.mk.inj done
    have ran := GroupView.run_next_of_advance ended
    have within := (view.next_confined 0 0).done ran
    obtain ⟨rfl, rfl⟩ := GroupView.run_next_eq_ok ran
    -- The repetition is placed at the limit, which moves past its block.
    have onward := sound.on_wire within.forward
    refine ⟨⟨onward.header, ?_, onward.around⟩, .of_within within sound.header
      (.inr (Nat.zero_le _)) (Nat.zero_le _)⟩
    refine .placed packed length (Nat.succ_ne_zero _) sound.header ?_
    show wire.cursor.limit + shape.blockLength ≤ wire.cursor.limit + view.blockLength
    rw [length]

theorem Sound.close {writer : Writer} (sound : writer.Sound) : writer.close.Sound := by
  unfold Writer.close
  split
  · exact sound
  · rename_i outer rest inside
    have around := sound.around
    rw [inside, List.forall_mem_cons] at around
    exact ⟨sound.header, around.1, around.2⟩

theorem wire_close (writer : Writer) : writer.close.wire = writer.wire := by
  unfold Writer.close
  split
  · rfl
  · rfl

/-- What one operation leaves as it was. -/
theorem Sound.perform {writer after : Writer} {floor : Nat} {operation : Operation}
    {outcome : Outcome CodecError Unit} (sound : writer.Sound)
    (timely : writer.isPremature operation = true → Header.versionIndex ≤ floor)
    (ended : writer.perform operation = (outcome, after)) (going : outcome ≠ .error .fault) :
    after.Sound ∧ Kept floor writer.wire after.wire := by
  cases outcome with
  | error halt =>
    cases halt with
    | refused cause =>
      rw [eq_of_refused ended]
      exact ⟨sound, .refl floor _⟩
    | fault => exact absurd rfl going
  | ok =>
    cases operation with
    | access access => exact sound.access timely ended
    | openGroup name count => exact sound.openGroup ended
    | next => exact sound.next ended
    | close =>
      cases ended
      rw [wire_close]
      exact ⟨sound.close, .refl floor _⟩

/-- What a run of operations leaves as it was: the version of the header and everything behind the
limit, and the whole header if no operation is premature. -/
theorem Sound.performAll {writer after : Writer} {floor : Nat} {operations : List Operation}
    (sound : writer.Sound)
    (timely : writer.isTimely operations = true ∨ Header.versionIndex ≤ floor)
    (ran : writer.performAll operations = some after) : Kept floor writer.wire after.wire := by
  induction operations generalizing writer with
  | nil =>
    cases ran
    exact .refl floor _
  | cons operation rest ih =>
    rw [Writer.performAll] at ran
    rw [isTimely, Bool.and_eq_true, Bool.not_eq_true'] at timely
    split at ran
    · cases ran
    · rename_i outcome middle going ended
      have early : writer.isPremature operation = true → Header.versionIndex ≤ floor := by
        intro premature
        rcases timely with ⟨ready, _⟩ | room
        · rw [premature] at ready
          cases ready
        · exact room
      obtain ⟨onward, kept⟩ := sound.perform early ended going
      rw [ended] at timely
      exact kept.trans (ih onward (timely.imp_left And.right) ran)

/-! ### The header -/

theorem room_of_start {shape : MessageShape} {buffer : Buffer} {view : MessageView} {wire : Wire}
    (opened : (shape.openWithHeader 0).run (MessageShape.fresh buffer) = (.ok view, wire)) :
    headerType.encodedLength ≤ buffer.capacity ∧
      headerType.encodedLength + shape.blockLength < wordBound := by
  obtain ⟨_, middle, written, opened⟩ := run_bind_eq_ok opened
  constructor
  · -- The last number of the header ends where the header ends.
    obtain ⟨_, first, wrote, written⟩ := run_bind_eq_ok written
    obtain ⟨_, rfl⟩ := run_putBytes_eq_ok wrote
    obtain ⟨_, second, wrote, written⟩ := run_bind_eq_ok written
    obtain ⟨_, rfl⟩ := run_putBytes_eq_ok wrote
    obtain ⟨_, third, wrote, written⟩ := run_bind_eq_ok written
    obtain ⟨_, rfl⟩ := run_putBytes_eq_ok wrote
    have inside := (run_putBytes_eq_ok written).1
    simp only [Wire.buffer_put, Buffer.capacity_overwrite, ByteOrder.bytes_length] at inside
    exact inside
  · obtain ⟨start, _, added, placed⟩ := run_bind_eq_ok opened
    obtain ⟨rfl, rfl, _⟩ := run_addSize_eq_ok added
    obtain ⟨limit, _, moved, _⟩ := run_bind_eq_ok placed
    have small := (run_addSize_eq_ok moved).2.2
    rwa [Nat.zero_add] at small

theorem start?_eq_some {shape : MessageShape} {buffer : Buffer} {writer : Writer}
    (started : start? shape buffer = some writer) :
    headerType.encodedLength ≤ buffer.capacity ∧
      writer = ⟨⟨buffer.overwrite 0 shape.header.bytes,
        ⟨headerType.encodedLength + shape.blockLength, shape.version⟩⟩,
        .message ⟨shape, headerType.encodedLength, shape.blockLength⟩, []⟩ := by
  unfold start? at started
  split at started
  · rename_i view wire opened
    obtain ⟨room, small⟩ := room_of_start opened
    rw [MessageShape.run_openWithHeader (by rwa [Nat.zero_add]) (by rwa [Nat.zero_add])] at opened
    obtain ⟨sameView, sameWire⟩ := Prod.mk.inj opened
    rw [← Option.some.inj started, ← Except.ok.inj sameView, ← sameWire, Nat.zero_add]
    exact ⟨room, rfl⟩
  · cases started

theorem start?_sound {shape : MessageShape} {buffer : Buffer} {writer : Writer}
    (packed : shape.Packed) (started : start? shape buffer = some writer) : writer.Sound := by
  obtain ⟨_, rfl⟩ := start?_eq_some started
  refine ⟨Nat.le_add_right _ _, .message packed (Nat.le_refl _) (Nat.le_refl _), ?_⟩
  intro outer member
  cases member

end Writer

end Codec

/-! ### What the header and the bytes behind the message are in the end -/

namespace Buffer

/-- The number of two bytes at an index. -/
def word (buffer : Buffer) (index : Nat) : Nat := ofLittleEndian ((buffer.toList.drop index).take 2)

theorem word_congr {buffer other : Buffer} {start : Nat}
    (same : ∀ index, start ≤ index → index < start + 2 →
      buffer.bytes[index]? = other.bytes[index]?) :
    buffer.word start = other.word start := by
  unfold word toList
  congr 1
  refine List.ext_getElem? fun index => ?_
  rw [List.getElem?_take, List.getElem?_take, List.getElem?_drop, List.getElem?_drop,
    Array.getElem?_toList, Array.getElem?_toList]
  split
  · exact same (start + index) (by omega) (by omega)
  · rfl

theorem drop_congr {buffer other : Buffer} {start : Nat}
    (same : ∀ index, start ≤ index → buffer.bytes[index]? = other.bytes[index]?) :
    buffer.toList.drop start = other.toList.drop start := by
  unfold toList
  refine List.ext_getElem? fun index => ?_
  rw [List.getElem?_drop, List.getElem?_drop, Array.getElem?_toList, Array.getElem?_toList]
  exact same (start + index) (Nat.le_add_right _ _)

/-- The header at the start of a buffer. -/
def header (buffer : Buffer) : Codec.Header :=
  ⟨buffer.word 0, buffer.word 2, buffer.word 4, buffer.word 6⟩

end Buffer

namespace Codec

theorem run_getNumber {index : Nat} {wire : Wire} (inside : index + 2 ≤ wire.buffer.capacity) :
    (getNumber .uint16 index).run wire = (.ok (wire.buffer.word index), wire) := by
  have found : (slice index 2).run wire = (.ok ((wire.buffer.toList.drop index).take 2), wire) :=
    congrArg (·, wire) (Buffer.slice_eq wire.buffer index 2 inside)
  rw [getNumber, show Primitive.uint16.size = 2 from rfl, run_bind_of_ok found]
  rfl

theorem Header.run_read {wire : Wire} (inside : headerType.encodedLength ≤ wire.buffer.capacity) :
    (Header.read 0).run wire = (.ok wire.buffer.header, wire) := by
  change 8 ≤ wire.buffer.capacity at inside
  rw [Header.read, run_bind_of_ok (run_getNumber (by omega)),
    run_bind_of_ok (run_getNumber (by omega)), run_bind_of_ok (run_getNumber (by omega)),
    run_bind_of_ok (run_getNumber (by omega))]
  rfl

theorem Header.eq_of_holds {header : Header} {buffer : Buffer} (fits : header.Fits)
    (holds : buffer.Holds 0 header.bytes) : buffer.header = header := by
  obtain ⟨before, after, whole, _⟩ := id holds
  have length := header.length_bytes
  have inside : headerType.encodedLength ≤ buffer.capacity := by
    rw [← Buffer.length_toList, whole, List.length_append, List.length_append, length]
    omega
  have small : 0 + header.bytes.length < wordBound := by
    rw [length]
    decide
  have found : (Header.read 0).run ⟨buffer, ⟨0, 0⟩⟩ = _ := Header.run_read inside
  rw [Header.read_gets fits 0 ⟨buffer, ⟨0, 0⟩⟩ rfl holds small] at found
  exact (Except.ok.inj (Prod.mk.inj found).1).symm

namespace Kept

variable {floor : Nat} {before after : Wire}

theorem version_eq (kept : Kept Header.versionIndex before after) :
    after.buffer.header.version = before.buffer.header.version :=
  Buffer.word_congr fun index above below => kept.bytes index (.inl ⟨above, below⟩)

theorem header_eq (kept : Kept 0 before after) : after.buffer.header = before.buffer.header := by
  have word (start : Nat) (inside : start + 2 ≤ headerType.encodedLength) :
      after.buffer.word start = before.buffer.word start :=
    Buffer.word_congr fun index _ below => kept.bytes index (.inl ⟨Nat.zero_le _, by omega⟩)
  unfold Buffer.header
  rw [word 0 (by decide), word 2 (by decide), word 4 (by decide), word 6 (by decide)]

end Kept

namespace Writer

theorem header_start {shape : MessageShape} {buffer : Buffer} {writer : Writer}
    (fits : shape.header.Fits) (started : start? shape buffer = some writer) :
    writer.wire.buffer.header = shape.header := by
  obtain ⟨room, rfl⟩ := start?_eq_some started
  have length := shape.header.length_bytes
  refine Header.eq_of_holds fits (Buffer.holds_overwrite ?_)
  rwa [length, Nat.zero_add]

theorem drop_eq {shape : MessageShape} {buffer : Buffer} {started writer : Writer}
    (start : start? shape buffer = some started)
    (kept : Kept Header.versionIndex started.wire writer.wire) :
    writer.wire.buffer.toList.drop writer.wire.cursor.limit =
      buffer.toList.drop writer.wire.cursor.limit := by
  have forward := kept.forward
  refine Buffer.drop_congr fun index behind => ?_
  rw [kept.bytes index (.inr behind)]
  obtain ⟨_, rfl⟩ := start?_eq_some start
  refine Buffer.getElem?_overwrite (.inr ?_)
  rw [Header.length_bytes]
  change headerType.encodedLength + shape.blockLength ≤ _ at forward
  omega

/-- What a run leaves of the buffer: its bytes from the limit on, and the version of the header. The
whole header stays, if no operation is premature. -/
theorem performAll_stays_inside {shape : MessageShape} (packed : shape.Packed)
    (fits : shape.header.Fits) {buffer : Buffer} {started writer : Writer}
    {operations : List Operation} (start : start? shape buffer = some started)
    (ran : started.performAll operations = some writer) :
    writer.wire.buffer.capacity = buffer.capacity ∧
    writer.wire.buffer.toList.drop writer.wire.cursor.limit =
      buffer.toList.drop writer.wire.cursor.limit ∧
    ∃ header, (Header.read 0).run writer.wire = (.ok header, writer.wire) ∧
      header.version = shape.version ∧
      (started.isTimely operations = true → header = shape.header) := by
  have sound := start?_sound packed start
  have header := header_start fits start
  have room := (start?_eq_some start).1
  have kept := sound.performAll (.inr (Nat.le_refl _)) ran
  have capacity : writer.wire.buffer.capacity = buffer.capacity := by
    rw [kept.capacity, (start?_eq_some start).2]
    exact Buffer.capacity_overwrite _ _ _
  refine ⟨capacity, drop_eq start kept, writer.wire.buffer.header, ?_, ?_, ?_⟩
  · exact Header.run_read (by rwa [capacity])
  · rw [kept.version_eq, header]
    rfl
  · intro timely
    rw [(sound.performAll (.inl timely) ran).header_eq, header]

end Writer

end Codec

namespace Demo

open Codec Writer

/-- The messages of the demonstration schema. -/
def messages : List MessageShape := [Car.shape, Order.shape, Service.shape]

theorem messages_packed : ∀ shape ∈ messages, shape.Packed ∧ shape.header.Fits := by
  have leaf {shape : GroupShape} (short : shape.blockLength ≤ Header.versionIndex)
      (block : blockExtent shape.members ≤ shape.blockLength) (none : shape.groups = []) :
      shape.Packed := by
    refine .intro short block ?_
    rw [none]
    intro inner member
    cases member
  have acceleration : Acceleration.shape.Packed := leaf (by decide) (by decide) rfl
  have performance : PerformanceFigure.shape.Packed :=
    .intro (by decide) (by decide) (List.forall_mem_singleton.mpr acceleration)
  have fuel : FuelFigure.shape.Packed := leaf (by decide) (by decide) rfl
  have fills : Order.fills.Packed := leaf (by decide) (by decide) rfl
  have stops : Service.stops.Packed := leaf (by decide) (by decide) rfl
  intro shape member
  rcases List.mem_cons.mp member with rfl | member
  · refine ⟨⟨by decide, ?_⟩, by decide⟩
    exact List.forall_mem_cons.mpr ⟨fuel, List.forall_mem_singleton.mpr performance⟩
  rcases List.mem_cons.mp member with rfl | member
  · exact ⟨⟨by decide, List.forall_mem_singleton.mpr fills⟩, by decide⟩
  · rw [List.mem_singleton] at member
    rw [member]
    exact ⟨⟨by decide, List.forall_mem_singleton.mpr stops⟩, by decide⟩

/-- However a message is written, the bytes from its end on stay as they were, and the version of
its header stays readable. The whole header does, if no field of a group is set before its first
repetition is taken. -/
theorem writing_stays_inside {shape : MessageShape} (known : shape ∈ messages) {buffer : Buffer}
    {started writer : Writer} {operations : List Operation}
    (start : start? shape buffer = some started)
    (ran : started.performAll operations = some writer) :
    writer.wire.buffer.capacity = buffer.capacity ∧
    writer.wire.buffer.toList.drop writer.wire.cursor.limit =
      buffer.toList.drop writer.wire.cursor.limit ∧
    ∃ header, (Header.read 0).run writer.wire = (.ok header, writer.wire) ∧
      header.version = shape.version ∧
      (started.isTimely operations = true → header = shape.header) := by
  obtain ⟨packed, fits⟩ := messages_packed shape known
  exact performAll_stays_inside packed fits start ran

/-- A run into a group inside a group, past its only repetition, and back. -/
def accelerationRun : List Operation :=
  [.openGroup "performanceFigures" 1, .next, .openGroup "acceleration" 1, .next,
    .access (.field "mph" (.write 60)), .next, .close, .close,
    .access (.composite "engine" (.part "capacity" (.write 2000))),
    .access (.field "model" (.writeText "Civic"))]

theorem accelerationRun_stays_inside :
    ∃ started writer,
      start? Car.shape (.ofList (List.replicate 80 7)) = some started ∧
      started.performAll accelerationRun = some writer ∧
      writer.wire.buffer.toList.drop writer.wire.cursor.limit =
        (List.replicate 80 7).drop writer.wire.cursor.limit ∧
      (Header.read 0).run writer.wire = (.ok Car.shape.header, writer.wire) := by
  have goes : ((start? Car.shape (.ofList (List.replicate 80 7))).bind fun started =>
      started.performAll accelerationRun).isSome = true := by decide +kernel
  have timely : (start? Car.shape (.ofList (List.replicate 80 7))).all fun started =>
      started.isTimely accelerationRun := by decide +kernel
  obtain ⟨writer, goes⟩ := Option.isSome_iff_exists.mp goes
  obtain ⟨started, start, ran⟩ := Option.bind_eq_some_iff.mp goes
  rw [start] at timely
  obtain ⟨_, rest, header, read, _, same⟩ := writing_stays_inside (.head _) start ran
  rw [same timely] at read
  exact ⟨started, writer, start, ran, rest, read⟩

/-- A price that is set before the first fill is taken lands in the header. -/
theorem price_before_fill_overwrites_header :
    ∃ started writer, start? Order.shape (.ofList (List.replicate 24 0)) = some started ∧
      started.performAll [.openGroup "fills" 1, .access (.field "price" (.write 0))] = some writer ∧
      (Header.read 0).run writer.wire = (.ok ⟨0, 2, 1, 1⟩, writer.wire) ∧
      Order.shape.header = ⟨4, 2, 1, 1⟩ :=
  ⟨_, _, rfl, rfl, rfl, rfl⟩

end Demo

end Sbe
