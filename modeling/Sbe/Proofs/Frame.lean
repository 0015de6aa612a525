import Sbe.Codec.Access
import Sbe.Proofs.Wire

/-!
**What work on a wire leaves as it was.**

Work that only looks leaves the wire alone. Work that writes changes bytes in a range that is known
in advance, and bytes between the limit before and the limit after; a refusal comes before anything
is written.

* `Wire.Within`: the change of a wire between two moments;
* `run_bind_eq_ok`, `run_bind_eq_error`: how a sequence came to its end;
* `Quiet`, `Firm`: work that only looks, and work that is never refused;
* `Confined`: work that writes inside a range and leaves nothing behind when it is refused;
* `Edits`: work of that kind which leaves the limit alone.
-/

namespace Sbe

namespace Buffer

theorem getElem?_replaceFrom {bytes : Array UInt8} {start index : Nat} {source : List UInt8}
    (outside : index < start ∨ start + source.length ≤ index) :
    (replaceFrom bytes start source)[index]? = bytes[index]? := by
  induction source generalizing bytes start with
  | nil => rfl
  | cons byte rest ih =>
    rw [List.length_cons] at outside
    rw [replaceFrom, ih (by omega), Array.getElem?_setIfInBounds_ne (by omega)]

/-- Overwriting leaves the bytes outside its range. -/
theorem getElem?_overwrite {buffer : Buffer} {start index : Nat} {source : List UInt8}
    (outside : index < start ∨ start + source.length ≤ index) :
    (buffer.overwrite start source).bytes[index]? = buffer.bytes[index]? :=
  getElem?_replaceFrom outside

end Buffer

/-! ### Changes of a wire -/

/-- The limit has not moved back, and only bytes from `low` to `high` and bytes that the limit has
passed may differ. -/
structure Wire.Within (low high : Nat) (before after : Wire) : Prop where
  capacity : after.buffer.capacity = before.buffer.capacity
  forward : before.cursor.limit ≤ after.cursor.limit
  bytes : ∀ index, index < low ∨ high ≤ index →
    index < before.cursor.limit ∨ after.cursor.limit ≤ index →
    after.buffer.bytes[index]? = before.buffer.bytes[index]?

namespace Wire.Within

variable {low high : Nat} {before middle after : Wire}

theorem refl (low high : Nat) (wire : Wire) : wire.Within low high wire :=
  ⟨rfl, Nat.le_refl _, fun _ _ _ => rfl⟩

theorem trans (first : before.Within low high middle) (second : middle.Within low high after) :
    before.Within low high after where
  capacity := second.capacity.trans first.capacity
  forward := Nat.le_trans first.forward second.forward
  bytes index outside passed := by
    have early := first.forward
    have late := second.forward
    rw [second.bytes index outside (by omega), first.bytes index outside (by omega)]

/-- Bytes between the limit before and the limit after may differ in any case. -/
theorem absorb (within : before.Within before.cursor.limit after.cursor.limit after) :
    before.Within low high after :=
  ⟨within.capacity, within.forward, fun index _ passed => within.bytes index passed passed⟩

theorem put {index : Nat} {source : List UInt8} (above : low ≤ index)
    (below : index + source.length ≤ high) (wire : Wire) :
    wire.Within low high (wire.put index source) where
  capacity := Buffer.capacity_overwrite _ _ _
  forward := Nat.le_refl _
  bytes other outside _ := Buffer.getElem?_overwrite (by omega)

theorem advance (wire : Wire) (length : Nat) : wire.Within low high (wire.advance length) :=
  ⟨rfl, Nat.le_add_right _ _, fun _ _ _ => rfl⟩

theorem append (wire : Wire) (bytes : List UInt8) : wire.Within low high (wire.append bytes) :=
  absorb ((put (Nat.le_refl _) (Nat.le_refl _) wire).trans (advance _ _))

end Wire.Within

namespace Codec

variable {α β : Type}

/-- One piece of work after another ends as the first does, or goes on from where it has got to. -/
theorem run_bind {ε σ : Type} (first : ExceptT ε (StateM σ) α) (next : α → ExceptT ε (StateM σ) β)
    (state : σ) :
    (first >>= next).run state =
      match first.run state with
      | (.ok value, after) => (next value).run after
      | (.error halt, after) => (.error halt, after) := by
  show (StateT.bind first (ExceptT.bindCont next)) state = _
  rw [StateT.bind]
  show _ = match first state with
    | (.ok value, after) => next value after
    | (.error halt, after) => (.error halt, after)
  cases first state with
  | mk outcome after => cases outcome <;> rfl

theorem run_bind_eq_ok {first : Codec α} {next : α → Codec β} {wire after : Wire} {result : β}
    (done : (first >>= next).run wire = (.ok result, after)) :
    ∃ value middle, first.run wire = (.ok value, middle) ∧
      (next value).run middle = (.ok result, after) := by
  rw [run_bind] at done
  cases ended : first.run wire with
  | mk outcome middle =>
    rw [ended] at done
    cases outcome with
    | error halt => cases done
    | ok value => exact ⟨value, middle, rfl, done⟩

theorem run_bind_eq_error {first : Codec α} {next : α → Codec β} {wire after : Wire}
    {halt : Halt CodecError} (stopped : (first >>= next).run wire = (.error halt, after)) :
    first.run wire = (.error halt, after) ∨
      ∃ value middle, first.run wire = (.ok value, middle) ∧
        (next value).run middle = (.error halt, after) := by
  rw [run_bind] at stopped
  cases ended : first.run wire with
  | mk outcome middle =>
    rw [ended] at stopped
    cases outcome with
    | error other =>
      cases stopped
      exact .inl rfl
    | ok value => exact .inr ⟨value, middle, rfl, stopped⟩

theorem run_putBytes_eq_ok {index : Nat} {source : List UInt8} {wire after : Wire} {result : Unit}
    (done : (putBytes index source).run wire = (.ok result, after)) :
    index + source.length ≤ wire.buffer.capacity ∧ after = wire.put index source := by
  change putBytes index source wire = (.ok result, after) at done
  unfold putBytes at done
  split at done
  · rename_i inside
    cases done
    exact ⟨of_decide_eq_true inside, rfl⟩
  · cases done

theorem run_addSize_eq_ok {left right sum : Nat} {wire after : Wire}
    (done : (ofOutcome (addSize left right)).run wire = (.ok sum, after)) :
    sum = left + right ∧ after = wire ∧ left + right < wordBound := by
  change (addSize left right, wire) = (.ok sum, after) at done
  unfold addSize at done
  split at done
  · rename_i small
    cases done
    exact ⟨rfl, rfl, small⟩
  · cases done

/-! ### Work that only looks -/

/-- Work that leaves the wire alone, however it ends. -/
def Quiet (work : Codec α) : Prop := ∀ wire, (work.run wire).2 = wire

namespace Quiet

theorem pure (value : α) : Quiet (pure value : Codec α) := fun _ => rfl

theorem ofOutcome (outcome : Outcome CodecError α) : Quiet (ofOutcome outcome) := fun _ => rfl

theorem refuse (cause : CodecError) : Quiet (refuse cause : Codec α) := fun _ => rfl

theorem limit : Quiet limit := fun _ => rfl

theorem slice (index length : Nat) : Quiet (slice index length) := fun _ => rfl

theorem isOlder (since : Nat) : Quiet (isOlder since) := fun _ => rfl

theorem bind {first : Codec α} {next : α → Codec β} (one : Quiet first)
    (two : ∀ value, Quiet (next value)) : Quiet (first >>= next) := by
  intro wire
  have same := one wire
  rw [run_bind]
  cases ended : first.run wire with
  | mk outcome after =>
    rw [ended] at same
    cases same
    cases outcome with
    | error halt => rfl
    | ok value => exact two value after

theorem ite {condition : Prop} [Decidable condition] {yes no : Codec α} (one : Quiet yes)
    (two : Quiet no) : Quiet (if condition then yes else no) := by
  split
  · exact one
  · exact two

theorem map {work : Codec α} (quiet : Quiet work) (image : α → β) :
    Quiet (work >>= fun value => Pure.pure (image value)) :=
  quiet.bind fun value => pure (image value)

/-- What is absent from an older message is looked up in a newer one. -/
theorem known {since : Nat} {absent present : Codec α} (one : Quiet absent) (two : Quiet present) :
    Quiet (do if ← Codec.isOlder since then absent else present) :=
  (isOlder since).bind fun _ => ite one two

theorem mapM {work : α → Codec β} (each : ∀ item, Quiet (work item)) (items : List α) :
    Quiet (items.mapM work) :=
  mapM_of_closed (fun _ => Quiet) pure bind fun item (_ : item ∈ items) => each item

end Quiet

/-! ### Work that is never refused -/

/-- Work that ends with a value or with a fault. -/
def Firm (work : Codec α) : Prop :=
  ∀ wire cause after, work.run wire ≠ (.error (.refused cause), after)

namespace Firm

theorem pure (value : α) : Firm (pure value : Codec α) := by
  intro wire cause after refused
  cases refused

theorem limit : Firm limit := by
  intro wire cause after refused
  cases refused

theorem setLimit (limit : Nat) : Firm (setLimit limit) := by
  intro wire cause after refused
  cases refused

theorem slice (index length : Nat) : Firm (slice index length) := by
  intro wire cause after refused
  change (wire.buffer.slice index length, wire) = _ at refused
  unfold Buffer.slice at refused
  split at refused
  · cases refused
  · cases refused

theorem addSize (left right : Nat) : Firm (Codec.ofOutcome (Sbe.addSize left right)) := by
  intro wire cause after refused
  change (Sbe.addSize left right, wire) = _ at refused
  unfold Sbe.addSize at refused
  split at refused
  · cases refused
  · cases refused

theorem putBytes (index : Nat) (source : List UInt8) : Firm (putBytes index source) := by
  intro wire cause after refused
  change Codec.putBytes index source wire = _ at refused
  unfold Codec.putBytes at refused
  split at refused
  · cases refused
  · cases refused

theorem bind {first : Codec α} {next : α → Codec β} (one : Firm first)
    (two : ∀ value, Firm (next value)) : Firm (first >>= next) := by
  intro wire cause after refused
  rcases run_bind_eq_error refused with early | ⟨value, middle, _, late⟩
  · exact one wire cause after early
  · exact two value middle cause after late

end Firm

/-! ### Work that writes -/

/-- Work that changes bytes from `low` to `high` and bytes that the limit passes, and nothing when
it is refused. -/
structure Confined (low high : Nat) (work : Codec α) : Prop where
  done : ∀ {wire value after}, work.run wire = (.ok value, after) → wire.Within low high after
  refused : ∀ {wire cause after}, work.run wire = (.error (.refused cause), after) → after = wire

theorem Quiet.confined {work : Codec α} (quiet : Quiet work) (low high : Nat) :
    Confined low high work := by
  have same {wire outcome after} (ended : work.run wire = (outcome, after)) : after = wire := by
    have kept := quiet wire
    rwa [ended] at kept
  refine ⟨fun ended => ?_, same⟩
  rw [same ended]
  exact Wire.Within.refl low high _

namespace Confined

variable {low high : Nat}

theorem of_firm {work : Codec α} (firm : Firm work)
    (done : ∀ {wire value after}, work.run wire = (.ok value, after) → wire.Within low high after) :
    Confined low high work :=
  ⟨done, fun ended => absurd ended (firm _ _ _)⟩

theorem ite {condition : Prop} [Decidable condition] {yes no : Codec α}
    (one : Confined low high yes) (two : Confined low high no) :
    Confined low high (if condition then yes else no) := by
  split
  · exact one
  · exact two

/-- Looking before writing adds nothing to what is written. -/
theorem after_looking {first : Codec α} {next : α → Codec β} (quiet : Quiet first)
    (confined : ∀ {wire value after}, first.run wire = (.ok value, after) →
      Confined low high (next value)) : Confined low high (first >>= next) where
  done {wire value after} ended := by
    obtain ⟨found, middle, looked, wrote⟩ := run_bind_eq_ok ended
    have within := (confined looked).done wrote
    have same := quiet wire
    rw [looked] at same
    rwa [← same]
  refused {wire cause after} ended := by
    have same := quiet wire
    rcases run_bind_eq_error ended with early | ⟨found, middle, looked, late⟩
    · rwa [early] at same
    · rw [looked] at same
      rw [← same]
      exact (confined looked).refused late

theorem after_quiet {first : Codec α} {next : α → Codec β} (quiet : Quiet first)
    (confined : ∀ value, Confined low high (next value)) : Confined low high (first >>= next) :=
  after_looking quiet fun {_ value _} _ => confined value

/-- What follows a write must not be refused, since the write would stay. -/
theorem bind {first : Codec α} {next : α → Codec β} (one : Confined low high first)
    (two : ∀ value, Confined low high (next value)) (firm : ∀ value, Firm (next value)) :
    Confined low high (first >>= next) where
  done ended := by
    obtain ⟨value, middle, early, late⟩ := run_bind_eq_ok ended
    exact (one.done early).trans ((two value).done late)
  refused ended := by
    rcases run_bind_eq_error ended with early | ⟨value, middle, _, late⟩
    · exact one.refused early
    · exact absurd late (firm value _ _ _)

theorem map {work : Codec α} (confined : Confined low high work) (image : α → β) :
    Confined low high (work >>= fun value => Pure.pure (image value)) :=
  confined.bind (fun value => (Quiet.pure (image value)).confined low high)
    fun value => Firm.pure (image value)

theorem silent {work : Codec Unit} (confined : Confined low high work) :
    Confined low high (silent work) :=
  confined.map fun _ => Datum.nothing

theorem putBytes {index : Nat} {source : List UInt8} (above : low ≤ index)
    (below : index + source.length ≤ high) : Confined low high (putBytes index source) := by
  refine of_firm (Firm.putBytes index source) fun {wire value after} ended => ?_
  rw [(run_putBytes_eq_ok ended).2]
  exact Wire.Within.put above below wire

end Confined

/-- Work on the bytes of a block from `low` to `high`: it looks and it writes there, and is refused
before it writes anything. It has nothing to do with the limit. -/
inductive Edits (low high : Nat) : {α : Type} → Codec α → Prop
  | looks {α : Type} {work : Codec α} (quiet : Quiet work) : Edits low high work
  | puts {index : Nat} {source : List UInt8} (above : low ≤ index)
      (below : index + source.length ≤ high) : Edits low high (putBytes index source)
  | after {α β : Type} {first : Codec α} {next : α → Codec β} (quiet : Quiet first)
      (later : ∀ value, Edits low high (next value)) : Edits low high (first >>= next)
  | bind {α β : Type} {first : Codec α} {next : α → Codec β} (one : Edits low high first)
      (two : ∀ value, Edits low high (next value)) (firm : ∀ value, Firm (next value)) :
      Edits low high (first >>= next)

namespace Edits

variable {low high : Nat}

theorem confined {work : Codec α} (edits : Edits low high work) : Confined low high work := by
  induction edits with
  | looks quiet => exact quiet.confined low high
  | puts above below => exact .putBytes above below
  | after quiet _ ih => exact .after_quiet quiet ih
  | bind _ _ firm one two => exact one.bind two firm

theorem silent {work : Codec Unit} (edits : Edits low high work) : Edits low high (silent work) :=
  edits.bind (fun _ => .looks (.pure Datum.nothing)) fun _ => .pure Datum.nothing

theorem putNumber {primitive : Primitive} {index : Nat} (above : low ≤ index)
    (below : index + primitive.size ≤ high) (pattern : Nat) :
    Edits low high (putNumber primitive index pattern) :=
  .puts above (by rwa [ByteOrder.bytes_length])

end Edits

end Codec

end Sbe
