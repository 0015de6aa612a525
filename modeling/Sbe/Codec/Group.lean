import Sbe.Codec.Composite
import Sbe.Codec.VarData

/-!
**Groups.**

A group stands at the limit: the length of its blocks and their number, two bytes each, then its
repetitions. A repetition is a block followed by its own groups and fields of variable length, so it
ends only when those have been consumed.
-/

namespace Sbe.Codec

/-- A field of the fixed block of a message or group. -/
inductive Member where
  | number (field : NumberField)
  | array (field : ArrayField)
  | text (field : TextField)
  | enumeration (field : EnumField)
  | constantEnum (place : Place) (type : EnumType) (value : EnumValue type)
  | bitSet (field : SetField)
  | composite (field : CompositeField)

namespace Member

/-- Where a member stands. -/
def place : Member → Place
  | number field => field.toPlace
  | array field => field.toPlace
  | text field => field.toPlace
  | enumeration field => field.toPlace
  | constantEnum place _ _ => place
  | bitSet field => field.toPlace
  | composite field => field.toPlace

end Member

/-- What a group is made of. -/
inductive GroupShape where
  | mk (name : String) (blockLength leastCount greatestCount since : Nat) (members : List Member)
      (groups : List GroupShape) (varData : List VarField)

namespace GroupShape

/-- The name of a group. -/
def name : GroupShape → String
  | mk name .. => name

/-- The length of a block as it is written. -/
def blockLength : GroupShape → Nat
  | mk _ blockLength .. => blockLength

/-- The least number of repetitions that may be written. -/
def leastCount : GroupShape → Nat
  | mk _ _ leastCount .. => leastCount

/-- The greatest number of repetitions that may be written. -/
def greatestCount : GroupShape → Nat
  | mk _ _ _ greatestCount .. => greatestCount

/-- The version that introduced a group. -/
def since : GroupShape → Nat
  | mk _ _ _ _ since .. => since

/-- The fields of a block. -/
def members : GroupShape → List Member
  | mk _ _ _ _ _ members _ _ => members

/-- The groups of a repetition. -/
def groups : GroupShape → List GroupShape
  | mk _ _ _ _ _ _ groups _ => groups

/-- The fields of variable length of a repetition. -/
def varData : GroupShape → List VarField
  | mk _ _ _ _ _ _ _ varData => varData

/-- The number of bytes in front of the repetitions. -/
def headerSize : Nat := 4

end GroupShape

/-- A group being read or written: the length of its blocks, the number of its repetitions, how many
of them have been taken, and where the block of the last one starts. -/
structure GroupView where
  name : String
  blockLength : Nat
  count : Nat
  taken : Nat := 0
  offset : Nat := 0
deriving DecidableEq

/-- Work on a group and on the wire below it. What it has done to either stays when it ends in a
refusal or a fault. -/
abbrev GroupCodec (α : Type) := ExceptT (Halt CodecError) (StateM (GroupView × Wire)) α

/-- Work on the wire below a group. -/
def GroupCodec.below {α : Type} (work : Codec α) : GroupCodec α := fun (view, wire) =>
  let (outcome, after) := work.run wire
  (outcome, view, after)

namespace GroupView

/-- The position of the current repetition, -1 before the first. -/
def index (view : GroupView) : Int := (view.taken : Int) - 1

/-- Whether there is a repetition to come. -/
def hasNext (view : GroupView) : Bool := decide (view.taken < view.count)

/-- Moves to the next repetition: its block starts at the limit, and the limit moves past the
block. -/
def advance : GroupCodec Unit := do
  let (view, _) ← get
  if view.hasNext then
    let start ← GroupCodec.below limit
    modify fun (view, wire) => ({ view with offset := start }, wire)
    GroupCodec.below (do setLimit (← ofOutcome (addSize start view.blockLength)))
    modify fun (view, wire) => ({ view with taken := view.taken + 1 }, wire)
  else GroupCodec.below (refuse (.groupExhausted view.name view.count))

/-- The group at its next repetition. -/
def next (view : GroupView) : Codec GroupView := fun wire =>
  match advance.run (view, wire) with
  | (.ok (), moved, after) => (.ok moved, after)
  | (.error halt, _, after) => (.error halt, after)

/-- Where taking a repetition leaves the group and the wire: a refusal leaves both as they are, and
a fault leaves the group where the repetition would start. -/
theorem run_advance (view : GroupView) (wire : Wire) :
    advance.run (view, wire) =
      if view.hasNext then
        if wire.cursor.limit + view.blockLength < wordBound then
          (.ok (), { view with taken := view.taken + 1, offset := wire.cursor.limit },
            { wire with cursor.limit := wire.cursor.limit + view.blockLength })
        else (.error .fault, { view with offset := wire.cursor.limit }, wire)
      else (.error (.refused (.groupExhausted view.name view.count)), view, wire) := by
  change (ite (view.hasNext = true) _ _ : GroupCodec Unit) (view, wire) = _
  cases view.hasNext with
  | false => rfl
  | true =>
    rw [if_pos rfl, if_pos rfl]
    change (do
      GroupCodec.below (do setLimit (← ofOutcome (addSize wire.cursor.limit view.blockLength)))
      modify fun (view, wire) => ({ view with taken := view.taken + 1 }, wire) :
        GroupCodec Unit) ({ view with offset := wire.cursor.limit }, wire) = _
    unfold addSize
    split <;> rfl

/-- A refusal moves neither the group nor the limit. -/
theorem eq_of_advance_refused {view moved : GroupView} {wire after : Wire} {cause : CodecError}
    (refused : advance.run (view, wire) = (.error (.refused cause), moved, after)) :
    moved = view ∧ after = wire := by
  rw [run_advance] at refused
  split at refused
  · split at refused <;> cases refused
  · cases refused
    exact ⟨rfl, rfl⟩

theorem run_next_of_advance {view moved : GroupView} {wire after : Wire}
    (done : advance.run (view, wire) = (.ok (), moved, after)) :
    view.next.run wire = (.ok moved, after) := by
  change next view wire = _
  unfold next
  rw [done]

/-- The next repetition as work on the wire alone. -/
theorem next_eq (view : GroupView) :
    view.next = (do
      if view.hasNext then
        let start ← limit
        setLimit (← ofOutcome (addSize start view.blockLength))
        pure { view with taken := view.taken + 1, offset := start }
      else refuse (.groupExhausted view.name view.count)) := by
  funext wire
  unfold next
  rw [run_advance]
  cases view.hasNext with
  | false => rfl
  | true =>
    rw [if_pos rfl, if_pos rfl]
    change _ = (do
      setLimit (← ofOutcome (addSize wire.cursor.limit view.blockLength))
      pure { view with taken := view.taken + 1, offset := wire.cursor.limit } :
        Codec GroupView) wire
    unfold addSize
    by_cases small : wire.cursor.limit + view.blockLength < wordBound
    · rw [if_pos small, if_pos small]
      rfl
    · rw [if_neg small, if_neg small]
      rfl

/-- A group that takes its next repetition is at the next repetition, or is refused one and stays
where it is. -/
theorem run_advance_of_next (view : GroupView) (wire : Wire) :
    advance.run (view, wire) =
      match view.next.run wire with
      | (.ok moved, after) => (.ok (), moved, after)
      | (.error (.refused cause), after) => (.error (.refused cause), view, after)
      | (.error .fault, after) =>
        (.error .fault, { view with offset := wire.cursor.limit }, after) := by
  change _ = match next view wire with
    | (Except.ok moved, after) => _
    | (Except.error (.refused cause), after) => _
    | (Except.error .fault, after) => _
  unfold next
  rw [run_advance]
  split
  · split <;> rfl
  · rfl

/-- Takes up to `fuel` further repetitions and does some work on each. -/
def forEachUpTo {α : Type} (work : GroupView → Codec α) : Nat → GroupView → Codec (List α)
  | 0, _ => pure []
  | fuel + 1, view => do
    if view.hasNext then
      let view ← view.next
      let value ← work view
      pure (value :: (← forEachUpTo work fuel view))
    else pure []

/-- Takes all remaining repetitions and does some work on each. -/
def forEach {α : Type} (view : GroupView) (work : GroupView → Codec α) : Codec (List α) :=
  view.forEachUpTo work (view.count - view.taken)

/-- Writes one repetition for each item. -/
def writeEach {α : Type} (work : GroupView → α → Codec Unit) : GroupView → List α → Codec Unit
  | _, [] => pure ()
  | view, item :: rest => do
    let view ← view.next
    work view item
    writeEach work view rest

end GroupView

namespace GroupShape

/-- Opens a group for reading; a message older than the group has none of it. -/
def openRead (shape : GroupShape) : Codec GroupView := do
  if ← isOlder shape.since then
    pure { name := shape.name, blockLength := shape.blockLength, count := 0 }
  else
    let start ← limit
    let blockLength ← getNumber .uint16 start
    let count ← getNumber .uint16 (start + 2)
    setLimit (← ofOutcome (addSize start headerSize))
    pure { name := shape.name, blockLength, count }

/-- Opens a group for writing; a count outside the bounds is refused. -/
def openWrite (shape : GroupShape) (count : Nat) : Codec GroupView := do
  if shape.leastCount ≤ count ∧ count ≤ shape.greatestCount then
    let start ← limit
    putNumber .uint16 start shape.blockLength
    putNumber .uint16 (start + 2) count
    setLimit (← ofOutcome (addSize start headerSize))
    pure { name := shape.name, blockLength := shape.blockLength, count }
  else refuse (.countOutOfRange shape.name count shape.leastCount shape.greatestCount)

/-- Reads all repetitions of a group. -/
def readAll {α : Type} (shape : GroupShape) (work : GroupView → Codec α) : Codec (List α) := do
  (← shape.openRead).forEach work

/-- Writes a group with one repetition for each item. The count on the wire has 16 bits, so a longer
list counts as the greatest of those. -/
def writeAll {α : Type} (shape : GroupShape) (items : List α)
    (work : GroupView → α → Codec Unit) : Codec Unit := do
  (← shape.openWrite (min items.length 65535)).writeEach work items

end GroupShape

end Sbe.Codec
