import Sbe.Proofs.BlockFields
import Sbe.Proofs.Versions

/-!
**How far accesses move the limit.**

Whatever moves the limit has first read or written something at it, so that the limit was still
inside the buffer. The accesses to a message or group therefore leave the limit where it was, or not
far behind the buffer; how far is decided by the greatest length that a field of variable length can
have.

* `Wire.Bounded`, `Bounded`: wires and work that move the limit by no more than that;
* `Element.access_bounded`, `Element.accessSet_bounded`, `Element.accessComposite_bounded`: every
  access to what a message or group holds;
* `GroupShape.Opened`: groups that have been opened, for reading or for writing.
-/

namespace Sbe

/-- The buffer has its size, and the limit is where it was or at most `slack` bytes behind the
buffer. -/
structure Wire.Bounded (slack : Nat) (before after : Wire) : Prop where
  capacity : after.buffer.capacity = before.buffer.capacity
  limit : after.cursor.limit ≤ max before.cursor.limit (before.buffer.capacity + slack)

namespace Wire.Bounded

variable {slack : Nat} {before middle after : Wire}

theorem refl (slack : Nat) (wire : Wire) : wire.Bounded slack wire :=
  ⟨rfl, Nat.le_max_left _ _⟩

theorem trans (first : before.Bounded slack middle) (second : middle.Bounded slack after) :
    before.Bounded slack after := by
  obtain ⟨kept, near⟩ := first
  obtain ⟨again, far⟩ := second
  rw [kept] at far
  exact ⟨again.trans kept, by omega⟩

theorem mono {wider : Nat} (bounded : before.Bounded slack after) (less : slack ≤ wider) :
    before.Bounded wider after := by
  obtain ⟨kept, near⟩ := bounded
  exact ⟨kept, by omega⟩

end Wire.Bounded

namespace Codec

variable {α β : Type}

/-- Work that leaves the limit where it was or at most `slack` bytes behind the buffer, unless it
ends in a fault. -/
def Bounded (slack : Nat) (work : Codec α) : Prop :=
  ∀ ⦃wire outcome after⦄, work.run wire = (outcome, after) → outcome ≠ .error .fault →
    wire.Bounded slack after

theorem Quiet.bounded {work : Codec α} (quiet : Quiet work) (slack : Nat) : Bounded slack work := by
  intro wire outcome after ended _
  have same := quiet wire
  rw [ended] at same
  cases same
  exact .refl slack _

namespace Bounded

variable {slack : Nat}

theorem mono {wider : Nat} {work : Codec α} (bounded : Bounded slack work) (less : slack ≤ wider) :
    Bounded wider work :=
  fun _ _ _ ended passed => (bounded ended passed).mono less

theorem bind {first : Codec α} {next : α → Codec β} (one : Bounded slack first)
    (two : ∀ value, Bounded slack (next value)) : Bounded slack (first >>= next) := by
  intro wire outcome after ended passed
  rw [run_bind] at ended
  cases ran : first.run wire with
  | mk result middle =>
    rw [ran] at ended
    cases result with
    | error halt =>
      cases ended
      refine one ran fun fault => passed ?_
      cases fault
      rfl
    | ok value =>
      have early : wire.Bounded slack middle := one ran (by intro fault; cases fault)
      exact early.trans (two value ended passed)

theorem map {work : Codec α} (bounded : Bounded slack work) (image : α → β) :
    Bounded slack (work >>= fun value => Pure.pure (image value)) :=
  bounded.bind fun value => (Quiet.pure (image value)).bounded slack

theorem silent {work : Codec Unit} (bounded : Bounded slack work) : Bounded slack (silent work) :=
  bounded.map fun _ => Datum.nothing

theorem mapM {work : α → Codec β} {items : List α}
    (each : ∀ item ∈ items, Bounded slack (work item)) : Bounded slack (items.mapM work) :=
  mapM_of_closed (fun _ => Bounded slack) (fun value => (Quiet.pure value).bounded slack) bind each

theorem putBytes (index : Nat) (source : List UInt8) : Bounded slack (putBytes index source) := by
  intro wire outcome after ended passed
  cases outcome with
  | ok value =>
    rw [(run_putBytes_eq_ok ended).2]
    exact ⟨Buffer.capacity_overwrite _ _ _, Nat.le_max_left _ _⟩
  | error halt =>
    cases halt with
    | fault => exact absurd rfl passed
    | refused cause => exact absurd ended (Firm.putBytes index source _ _ _)

/-- Where a refusal leaves nothing behind, only success matters. -/
theorem of_refused {work : Codec α}
    (refused : ∀ ⦃wire cause after⦄, work.run wire = (.error (.refused cause),
      after) → after = wire)
    (done : ∀ ⦃wire value after⦄, work.run wire = (.ok value, after) → wire.Bounded slack after) :
    Bounded slack work := by
  intro wire outcome after ended passed
  cases outcome with
  | ok value => exact done ended
  | error halt =>
    cases halt with
    | fault => exact absurd rfl passed
    | refused cause =>
      rw [refused ended]
      exact .refl slack wire

theorem of_confined {low high : Nat} {work : Codec α} (confined : Confined low high work)
    (done : ∀ ⦃wire value after⦄, work.run wire = (.ok value, after) → wire.Bounded slack after) :
    Bounded slack work :=
  of_refused (fun _ _ _ ended => confined.refused ended) done

end Bounded

/-- Work on a block leaves the limit where it was. -/
theorem Edits.bounded {low high : Nat} {work : Codec α} (edits : Edits low high work)
    (slack : Nat) : Bounded slack work := by
  induction edits with
  | looks quiet => exact quiet.bounded slack
  | puts => exact .putBytes _ _
  | after quiet _ ih => exact (quiet.bounded slack).bind ih
  | bind _ _ _ one two => exact one.bind two

/-! ### Fields of variable length -/

theorem run_getNumber_eq_ok {primitive : Primitive} {index number : Nat} {wire after : Wire}
    (done : (getNumber primitive index).run wire = (.ok number, after)) :
    index + primitive.size ≤ wire.buffer.capacity ∧
      number = wire.buffer.numberAt index primitive.size ∧ after = wire := by
  by_cases inside : index + primitive.size ≤ wire.buffer.capacity
  · rw [run_getNumber_eq inside] at done
    cases done
    exact ⟨inside, rfl, rfl⟩
  · obtain ⟨bytes, middle, found, _⟩ := run_bind_eq_ok done
    change (wire.buffer.slice index primitive.size, wire) = _ at found
    rw [Buffer.slice, Buffer.holds, decide_eq_false inside] at found
    cases found

/-- A range that leaves the buffer holds a smaller number. -/
theorem numberAt_lt_patternCount (buffer : Buffer) (start size : Nat) :
    buffer.numberAt start size < patternCount size :=
  Nat.lt_of_lt_of_le (ofLittleEndian_lt _)
    (Nat.pow_le_pow_right (by decide) (List.length_take_le _ _))

/-- The number of lengths that a field of variable length can have. -/
def lengthCount : Nat := 4294967296

namespace VarField

variable (field : VarField)

/-- A value is consumed only where its length stands in the buffer. -/
theorem run_consume_bounded {wire after : Wire} {found : Nat × Nat}
    (known : field.since ≤ wire.cursor.version)
    (done : field.consume.run wire = (.ok found, after)) : wire.Bounded lengthCount after := by
  obtain ⟨length, middle, read, moved⟩ := run_bind_eq_ok done
  rw [VarField.length, run_of_known known] at read
  obtain ⟨start, here, stands, read⟩ := run_bind_eq_ok read
  cases stands
  obtain ⟨inside, rfl, rfl⟩ := run_getNumber_eq_ok read
  obtain ⟨_, rfl⟩ := run_move_eq_ok moved
  have small : middle.buffer.numberAt middle.cursor.limit 4 < lengthCount :=
    numberAt_lt_patternCount _ _ _
  refine ⟨rfl, ?_⟩
  simp only [Wire.limit_advance, headerLength, Primitive.size] at inside ⊢
  omega

/-- What is done with a value once it has been consumed leaves the limit behind it. -/
theorem consuming_bounded (absent : α) {rest : Nat × Nat → Codec α}
    (quiet : ∀ found, Quiet (rest found)) (firm : ∀ found, Firm (rest found)) :
    Bounded lengthCount (isOlder field.since >>= fun older =>
      if older then pure absent else field.consume >>= rest) := by
  refine .of_confined (.after_quiet (Quiet.isOlder field.since) fun _ =>
    .ite ((Quiet.pure absent).confined 0 0)
      ((field.consume_confined 0 0).bind (fun found => (quiet found).confined 0 0) firm))
    fun wire value after done => ?_
  by_cases known : field.since ≤ wire.cursor.version
  · rw [run_of_known known] at done
    obtain ⟨found, middle, consumed, done⟩ := run_bind_eq_ok done
    have same := quiet found middle
    rw [done] at same
    cases same
    exact field.run_consume_bounded known consumed
  · rw [run_of_older (Nat.not_le.mp known)] at done
    cases done
    exact .refl lengthCount wire

theorem skip_bounded : Bounded lengthCount field.skip :=
  field.consuming_bounded 0 (fun found => Quiet.pure found.2) fun found => Firm.pure found.2

theorem bytes_bounded : Bounded lengthCount field.bytes :=
  field.consuming_bounded [] (fun _ => Quiet.slice _ _) fun _ => Firm.slice _ _

theorem put_bounded (source : List UInt8) : Bounded lengthCount (field.put source) := by
  refine .of_confined (field.put_confined 0 0 source) fun wire _ after done => ?_
  obtain ⟨inside, rfl⟩ := field.run_put_eq_ok done
  refine ⟨Wire.capacity_append _ _, ?_⟩
  rw [Wire.limit_append]
  omega

theorem access_bounded (access : FieldAccess) : Bounded lengthCount (field.access access) := by
  unfold VarField.access
  split
  · split
    · exact (field.bytes_bounded.map _).map _
    · exact (Quiet.pure _).bounded _
  · split
    · exact (((encodeText_quiet _ _).bounded _).bind fun _ => field.put_bounded _).silent
    · exact (Quiet.pure _).bounded _
  · exact field.bytes_bounded.map _
  · exact (field.put_bounded _).silent
  · exact (field.bytes_bounded.map _).map _
  · exact (field.length_quiet.map _).bounded _
  · exact field.skip_bounded.map _
  · exact (Quiet.pure _).bounded _

end VarField

/-! ### Messages and groups -/

namespace Element

variable (element : Element)

theorem access_bounded (name : String) (access : FieldAccess) :
    Bounded lengthCount (element.access name access) := by
  unfold Element.access
  split
  · exact (Member.access_edits _ _ access fun _ => ⟨Nat.zero_le _, Nat.le_refl _⟩).bounded _
  · exact VarField.access_bounded _ access
  · exact (Quiet.pure _).bounded _

theorem accessSet_bounded (name : String) (access : SetAccess) :
    Bounded lengthCount (element.accessSet name access) := by
  unfold Element.accessSet
  split
  · rename_i field found
    rw [field.view?_eq]
    refine ((viewAt_quiet _ _ _ _).bounded _).bind fun view? => ?_
    split
    · exact (SetView.access_edits _ access fun _ => ⟨Nat.zero_le _, Nat.le_refl _⟩).bounded _
    · exact (Quiet.pure _).bounded _
  · exact (Quiet.pure _).bounded _

theorem accessComposite_bounded (name : String) (accesses : List CompositeAccess) :
    Bounded lengthCount (element.accessComposite name accesses) := by
  unfold Element.accessComposite
  split
  · rename_i field found
    rw [field.view?_eq]
    refine ((viewAt_quiet _ _ _ _).bounded _).bind fun view? => ?_
    split
    · rename_i view
      exact (Bounded.mapM fun access _ =>
        (view.accessOne_edits access fun _ => ⟨Nat.zero_le _, Nat.le_refl _⟩).bounded _).map _
    · exact (Quiet.pure _).bounded _
  · exact (Quiet.pure _).bounded _

theorem answer_bounded {queries : List Query} (plain : queries.all Query.isPlain = true)
    (slack : Nat) : Bounded slack (element.answer queries) := by
  refine (Bounded.mapM fun query member => Quiet.bounded ?_ slack).map _
  have plain := List.all_eq_true.mp plain query member
  cases query with
  | limit => exact Quiet.limit.map _
  | capacity => exact Quiet.map (fun _ => rfl) _
  | version | text | rendered | writtenText => cases plain
  | encodedLength =>
    cases element with
    | message view => exact (Quiet.limit.bind fun _ => .ofOutcome _).map _
    | group shape view => exact .pure _
  | _ =>
    cases element with
    | _ => exact .pure _

end Element

/-! ### Opened groups -/

namespace GroupShape

variable {shape : GroupShape} {view : GroupView} {wire after : Wire}

/-- A group that a message has is opened where its dimensions stand in the buffer. -/
theorem run_openRead_eq_ok (known : shape.since ≤ wire.cursor.version)
    (done : shape.openRead.run wire = (.ok view, after)) :
    wire.cursor.limit + headerSize ≤ wire.buffer.capacity ∧ after = wire.advance headerSize ∧
      view = { name := shape.name, blockLength := wire.buffer.numberAt wire.cursor.limit 2,
               count := wire.buffer.numberAt (wire.cursor.limit + 2) 2 } := by
  rw [openRead, run_of_known known] at done
  obtain ⟨start, middle, here, done⟩ := run_bind_eq_ok done
  cases here
  obtain ⟨blockLength, middle, read, done⟩ := run_bind_eq_ok done
  obtain ⟨_, rfl, rfl⟩ := run_getNumber_eq_ok read
  obtain ⟨count, middle, read, done⟩ := run_bind_eq_ok done
  obtain ⟨inside, rfl, rfl⟩ := run_getNumber_eq_ok read
  obtain ⟨sum, middle, added, done⟩ := run_bind_eq_ok done
  obtain ⟨rfl, rfl, _⟩ := run_addSize_eq_ok added
  cases done
  exact ⟨inside, rfl, rfl⟩

/-- A group is opened for writing where its dimensions fit the buffer. -/
theorem inside_of_openWrite {count : Nat}
    (done : (shape.openWrite count).run wire = (.ok view, after)) :
    count ≤ shape.greatestCount ∧ wire.cursor.limit + headerSize ≤ wire.buffer.capacity := by
  unfold openWrite at done
  split at done
  · next allowed =>
    obtain ⟨start, middle, here, done⟩ := run_bind_eq_ok done
    cases here
    obtain ⟨_, sized, written, done⟩ := run_bind_eq_ok done
    obtain ⟨_, rfl⟩ := run_putBytes_eq_ok written
    obtain ⟨_, counted, written, done⟩ := run_bind_eq_ok done
    obtain ⟨inside, _⟩ := run_putBytes_eq_ok written
    rw [ByteOrder.bytes_length, Wire.buffer_put, Buffer.capacity_overwrite] at inside
    exact ⟨allowed.2, inside⟩
  · cases done

theorem openRead_firm (shape : GroupShape) : Firm shape.openRead := by
  have number (index : Nat) : Firm (getNumber .uint16 index) :=
    (Firm.slice _ _).bind fun _ => .pure _
  refine Firm.bind (fun _ _ _ refused => by cases refused) fun older => ?_
  split
  · exact .pure _
  · exact Firm.limit.bind fun _ => (number _).bind fun _ => (number _).bind fun _ =>
      (Firm.addSize _ _).bind fun _ => (Firm.setLimit _).bind fun _ => .pure _

/-- Opens a group: for writing when it is given the number of repetitions to write. -/
def opening (shape : GroupShape) (written : Option Nat) : Codec GroupView :=
  (written.map shape.openWrite).getD shape.openRead

/-- The length of the blocks of a group that is opened at a wire: the one that stands there, or the
one of the schema when the group is written or not there. -/
def actingBlockLength (shape : GroupShape) (written : Option Nat) (wire : Wire) : Nat :=
  if written.isSome ∨ wire.cursor.version < shape.since then shape.blockLength
  else wire.buffer.numberAt wire.cursor.limit 2

/-- The number of repetitions of a group that is opened at a wire. -/
def actingCount (shape : GroupShape) (written : Option Nat) (wire : Wire) : Nat :=
  written.getD (if wire.cursor.version < shape.since then 0
    else wire.buffer.numberAt (wire.cursor.limit + 2) 2)

/-- What has been opened: a group before its first repetition, with its dimensions in the buffer
unless the message is older than the group. -/
structure Opened (shape : GroupShape) (written : Option Nat) (view : GroupView)
    (wire after : Wire) : Prop where
  dimensions : view = { name := shape.name, blockLength := shape.actingBlockLength written wire,
                        count := shape.actingCount written wire }
  capacity : after.buffer.capacity = wire.buffer.capacity
  limit : after = wire ∧ view.count = 0 ∨
    after.cursor.limit = wire.cursor.limit + headerSize ∧ after.cursor.limit ≤ wire.buffer.capacity

theorem opened_of_opening {written : Option Nat}
    (done : (shape.opening written).run wire = (.ok view, after)) :
    shape.Opened written view wire after := by
  cases written with
  | some count =>
    obtain ⟨_, inside⟩ := inside_of_openWrite done
    obtain ⟨rfl, rfl⟩ := run_openWrite_eq_ok done
    refine ⟨rfl, Wire.capacity_append _ _, .inr ⟨rfl, inside⟩⟩
  | none =>
    by_cases older : wire.cursor.version < shape.since
    · change shape.openRead.run wire = _ at done
      rw [run_openRead_of_older older] at done
      cases done
      refine ⟨?_, rfl, .inl ⟨rfl, rfl⟩⟩
      simp [empty, actingBlockLength, actingCount, older]
    · obtain ⟨inside, rfl, rfl⟩ := run_openRead_eq_ok (Nat.not_lt.mp older) done
      refine ⟨?_, rfl, .inr ⟨rfl, inside⟩⟩
      simp [actingBlockLength, actingCount, older]

theorem opening_bounded (shape : GroupShape) (written : Option Nat) (slack : Nat) :
    Bounded slack (shape.opening written) := by
  refine .of_refused (fun wire cause after ended => ?_) fun wire view after done => ?_
  · cases written with
    | some count => exact (shape.openWrite_confined count 0 0).refused ended
    | none => exact absurd ended (shape.openRead_firm _ _ _)
  · obtain ⟨_, capacity, limit⟩ := opened_of_opening done
    rcases limit with ⟨rfl, _⟩ | ⟨_, inside⟩
    · exact .refl slack _
    · exact ⟨capacity, by omega⟩

end GroupShape

end Codec

end Sbe
