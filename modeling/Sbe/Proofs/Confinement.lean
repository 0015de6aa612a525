import Sbe.Proofs.Sinks
import Sbe.Proofs.Groups

/-!
**Where the accesses to a message write.**

A setter writes inside the bytes of its member, a getter nowhere. What stands at the limit, a group
or a field of variable length, is written where the limit passes. A refusal leaves no trace in
either.

* `NumberField.read_quiet` and the like: every reader of a fixed block only looks;
* `Member.access_edits` and the like: accesses to a fixed block;
* `Element.access_confined`, `Element.accessSet_confined`, `Element.accessComposite_confined`:
  accesses to the fields of a message or group;
* `GroupShape.run_openWrite_eq_ok`, `GroupView.run_next_eq_ok`: groups and their repetitions;
* `Access.confined`: the accesses of all kinds together.
-/

namespace Sbe.Codec

variable {α : Type}

/-! ### Readers -/

theorem getNumber_quiet (primitive : Primitive) (index : Nat) : Quiet (getNumber primitive index) :=
  (Quiet.slice _ _).map _

theorem encodeText_quiet (charset : Text.Charset) (text : String) :
    Quiet (encodeText charset text) := by
  unfold encodeText
  cases charset.encode text with
  | ok bytes => exact Quiet.pure bytes
  | error character => exact Quiet.refuse _

theorem NumberField.read_quiet (field : NumberField) (base : Nat) : Quiet (field.read base) :=
  .known (.pure _) (getNumber_quiet _ _)

theorem ArrayField.testIndex_quiet (field : ArrayField) (index : Nat) :
    Quiet (field.testIndex index) :=
  .ite (.pure _) (.refuse _)

theorem ArrayField.readAt_quiet (field : ArrayField) (base index : Nat) :
    Quiet (field.readAt base index) :=
  (field.testIndex_quiet index).bind fun _ => .known (.pure _) (getNumber_quiet _ _)

theorem TextField.copy_quiet (field : TextField) (base : Nat) (destination : List UInt8) :
    Quiet (field.copy base destination) :=
  .ite (.refuse _) (.known (.pure _) ((Quiet.slice _ _).map _))

theorem TextField.read_quiet (field : TextField) (base : Nat) : Quiet (field.read base) :=
  .known (.pure _) ((Quiet.slice _ _).map _)

theorem EnumField.readRaw_quiet (field : EnumField) (base : Nat) : Quiet (field.readRaw base) :=
  .known (.pure _) (getNumber_quiet _ _)

theorem EnumField.read_quiet (field : EnumField) (base : Nat) : Quiet (field.read base) :=
  (field.readRaw_quiet base).bind fun _ => .ofOutcome _

theorem SetView.raw_quiet (view : SetView) : Quiet view.raw := getNumber_quiet _ _

/-- Work that gives a view at an offset of a block, nothing in an older message. -/
def viewAt (place : Nat → α) (since offset base : Nat) : Codec (Option α) := do
  if ← isOlder since then pure none
  else
    let view ← (do pure (place (← ofOutcome (addSize base offset))) : Codec α)
    pure (some view)

theorem viewAt_quiet (place : Nat → α) (since offset base : Nat) :
    Quiet (viewAt place since offset base) :=
  .known (.pure _) (((Quiet.ofOutcome _).map _).map _)

theorem run_viewAt_eq_some {place : Nat → α} {since offset base : Nat} {wire after : Wire}
    {view : α} (done : (viewAt place since offset base).run wire = (.ok (some view), after)) :
    view = place (base + offset) := by
  obtain ⟨older, middle, _, done⟩ := run_bind_eq_ok done
  split at done
  · cases done
  · obtain ⟨found, middle, placed, done⟩ := run_bind_eq_ok done
    cases done
    obtain ⟨sum, middle, added, placed⟩ := run_bind_eq_ok placed
    cases placed
    rw [(run_addSize_eq_ok added).1]

theorem SetField.view?_eq (field : SetField) (base : Nat) :
    field.view? base = viewAt (SetView.mk field.type) field.since field.offset base := rfl

theorem CompositeField.view?_eq (field : CompositeField) (base : Nat) :
    field.view? base = viewAt (CompositeView.mk field.type) field.since field.offset base := rfl

theorem SetView.text_quiet (view : SetView) : Quiet view.text := by
  rw [SetView.text_eq]
  exact .ite (.pure _) (view.raw_quiet.map _)

theorem CompositeView.text_quiet (view : CompositeView) : Quiet view.text := by
  rw [CompositeView.text_eq]
  refine (Quiet.mapM (fun part => ?_) _).map _
  cases part with
  | number field =>
    rw [view.entry_number]
    exact (field.read_quiet _).map _
  | text field =>
    rw [view.entry_text]
    exact (field.read_quiet _).map _
  | constantNumber | constantText => exact fun _ => rfl

theorem VarField.length_quiet (field : VarField) : Quiet field.length :=
  .known (.pure _) (Quiet.limit.bind fun _ => getNumber_quiet _ _)

/-! ### Setters -/

/-- Whether an access to a field of a fixed block is a setter. -/
def FieldAccess.sets : FieldAccess → Bool
  | write _ | choose _ | writeAt .. | writeText _ | writeBytes _ => true
  | read | readRaw | readAt _ | readText | readBytes | copy _ | length | skip => false

/-- Whether an access to a set is a setter. -/
def SetAccess.sets : SetAccess → Bool
  | clear | change .. => true
  | raw | text | test _ => false

/-- Whether an access to a composite is a setter. -/
def CompositeAccess.sets : CompositeAccess → Bool
  | part _ access => access.sets
  | offset | encodedLength | text => false

/-! ### Fields of a fixed block -/

section Block

variable {low high : Nat}

theorem NumberField.access_edits (field : NumberField) (base : Nat) (access : FieldAccess)
    (range : access.sets = true →
      low ≤ base ∧ base + (field.offset + field.primitive.size) ≤ high) :
    Edits low high (field.access base access) := by
  unfold NumberField.access
  split
  · exact .looks ((field.read_quiet base).map _)
  · exact .looks ((field.read_quiet base).map _)
  · obtain ⟨above, below⟩ := range rfl
    exact (Edits.putNumber (by omega) (by omega) _).silent
  · exact .looks (.pure _)

theorem ArrayField.writeAt_edits (field : ArrayField) (base index pattern : Nat)
    (above : low ≤ base)
    (below : base + (field.offset + field.length * field.primitive.size) ≤ high) :
    Edits low high (field.writeAt base index pattern) := by
  unfold ArrayField.writeAt ArrayField.testIndex
  -- An index past the end is refused, so the element lies inside the field.
  by_cases inside : index < field.length
  · have upto := Nat.mul_le_mul_right field.primitive.size (Nat.succ_le_of_lt inside)
    rw [Nat.succ_mul] at upto
    rw [if_pos inside]
    refine Edits.after (Quiet.pure ()) fun _ => Edits.putNumber ?_ ?_ _
    · unfold ArrayField.elementIndex
      omega
    · unfold ArrayField.elementIndex
      omega
  · rw [if_neg inside]
    exact .looks fun _ => rfl

theorem ArrayField.access_edits (field : ArrayField) (base : Nat) (access : FieldAccess)
    (range : access.sets = true →
      low ≤ base ∧ base + (field.offset + field.length * field.primitive.size) ≤ high) :
    Edits low high (field.access base access) := by
  unfold ArrayField.access
  split
  · exact .looks ((field.readAt_quiet base _).map _)
  · obtain ⟨above, below⟩ := range rfl
    exact (field.writeAt_edits base _ _ above below).silent
  · exact .looks (.pure _)

theorem fill_eq_putBytes (index length : Nat) (value : UInt8) :
    fill index length value = putBytes index (List.replicate length value) := by
  unfold fill putBytes
  rw [List.length_replicate]

theorem TextField.put_edits (field : TextField) (base : Nat) (source : List UInt8)
    (above : low ≤ base) (below : base + (field.offset + field.length) ≤ high) :
    Edits low high (field.put base source) := by
  have kept : (source.take field.length).length ≤ field.length := List.length_take_le _ _
  unfold TextField.put
  simp only [fill_eq_putBytes]
  refine Edits.bind (Edits.puts (by omega) (by omega)) (fun _ => ?_)
    fun _ => Firm.putBytes _ _
  refine Edits.puts (by omega) ?_
  rw [List.length_replicate]
  omega

theorem TextField.access_edits (field : TextField) (base : Nat) (access : FieldAccess)
    (range : access.sets = true → low ≤ base ∧ base + (field.offset + field.length) ≤ high) :
    Edits low high (field.access base access) := by
  unfold TextField.access
  split
  · exact .looks ((field.read_quiet base).map _)
  · obtain ⟨above, below⟩ := range rfl
    exact (Edits.after (encodeText_quiet _ _) fun bytes =>
      field.put_edits base bytes above below).silent
  · obtain ⟨above, below⟩ := range rfl
    exact (field.put_edits base _ above below).silent
  · exact .looks ((field.copy_quiet base _).map _)
  · refine field.elements.access_edits base access fun sets => ?_
    rw [show field.elements.length * field.elements.primitive.size =
      field.length from Nat.mul_one _]
    exact range sets

theorem EnumField.access_edits (field : EnumField) (base : Nat) (access : FieldAccess)
    (range : access.sets = true →
      low ≤ base ∧ base + (field.offset + field.type.primitive.size) ≤ high) :
    Edits low high (field.access base access) := by
  unfold EnumField.access
  split
  · exact .looks ((field.read_quiet base).map _)
  · exact .looks ((field.readRaw_quiet base).map _)
  · obtain ⟨above, below⟩ := range rfl
    exact (Edits.putNumber (by omega) (by omega) _).silent
  · exact .looks (.pure _)

theorem SetView.access_edits (view : SetView) (access : SetAccess)
    (range : access.sets = true →
      low ≤ view.offset ∧ view.offset + view.type.primitive.size ≤ high) :
    Edits low high (view.access access) := by
  unfold SetView.access
  split
  · exact .looks (view.raw_quiet.map _)
  · exact .looks (view.text_quiet.map _)
  · obtain ⟨above, below⟩ := range rfl
    exact (Edits.putNumber above below 0).silent
  · split
    · exact .looks (view.raw_quiet.map _)
    · exact .looks (.pure _)
  · obtain ⟨above, below⟩ := range rfl
    split
    · exact (Edits.after view.raw_quiet fun raw => .putNumber above below _).silent
    · exact .looks (.pure _)

/-- The number of bytes up to the end of a part. -/
def Part.extent : Part → Nat
  | number field => field.offset + field.primitive.size
  | text field => field.offset + field.length
  | constantNumber .. => 0
  | constantText _ => 0

/-- The number of bytes up to the end of the last part. -/
def CompositeType.extent (type : CompositeType) : Nat := (type.parts.map Part.extent).max?.getD 0

theorem Part.access_edits (part : Part) (base : Nat) (access : FieldAccess)
    (range : access.sets = true → low ≤ base ∧ base + part.extent ≤ high) :
    Edits low high (part.access base access) := by
  unfold Part.access
  split
  · exact NumberField.access_edits _ base access range
  · exact TextField.access_edits _ base access range
  · exact .looks (.pure _)
  · unfold ConstantText.access
    split
    · exact .looks (.pure _)
    · exact .looks ((Quiet.ofOutcome _).map _)
    · exact .looks (.pure _)
    · exact .looks (.pure _)
  · exact .looks (.pure _)

theorem CompositeView.accessOne_edits (view : CompositeView) (access : CompositeAccess)
    (range : access.sets = true → low ≤ view.offset ∧ view.offset + view.type.extent ≤ high) :
    Edits low high (view.accessOne access) := by
  unfold CompositeView.accessOne
  split
  · exact .looks (.pure _)
  · exact .looks (.pure _)
  · exact .looks (view.text_quiet.map _)
  · split
    · rename_i part found
      have upto : part.extent ≤ view.type.extent :=
        List.le_max?_getD_of_mem (List.mem_map_of_mem (List.mem_of_find?_eq_some found))
      refine part.access_edits view.offset _ fun sets => ?_
      obtain ⟨above, below⟩ := range sets
      exact ⟨above, by omega⟩
    · exact .looks (.pure _)

/-- The number of bytes up to the end of a member. -/
def Member.extent : Member → Nat
  | number field => field.offset + field.primitive.size
  | array field => field.offset + field.length * field.primitive.size
  | text field => field.offset + field.length
  | enumeration field => field.offset + field.type.primitive.size
  | constantEnum .. => 0
  | bitSet field => field.offset + field.type.primitive.size
  | composite field => field.offset + field.type.extent

theorem Member.access_edits (member : Member) (base : Nat) (access : FieldAccess)
    (range : access.sets = true → low ≤ base ∧ base + member.extent ≤ high) :
    Edits low high (member.access base access) := by
  unfold Member.access
  split
  · exact NumberField.access_edits _ base access range
  · exact ArrayField.access_edits _ base access range
  · exact TextField.access_edits _ base access range
  · exact EnumField.access_edits _ base access range
  · exact .looks (.pure _)
  · exact .looks (.pure _)

end Block

/-! ### Fields of variable length and groups -/

/-- Moves the limit forward. -/
theorem run_move_eq_ok {length : Nat} {result : Nat → α} {wire after : Wire} {value : α}
    (done : (do
      let start ← limit
      setLimit (← ofOutcome (addSize start length))
      pure (result start) : Codec α).run wire = (.ok value, after)) :
    value = result wire.cursor.limit ∧ after = wire.advance length := by
  obtain ⟨start, middle, here, done⟩ := run_bind_eq_ok done
  cases here
  obtain ⟨sum, middle, added, done⟩ := run_bind_eq_ok done
  obtain ⟨rfl, rfl, _⟩ := run_addSize_eq_ok added
  cases done
  exact ⟨rfl, rfl⟩

theorem move_confined (low high length : Nat) (result : Nat → α) :
    Confined low high (do
      let start ← limit
      setLimit (← ofOutcome (addSize start length))
      pure (result start) : Codec α) := by
  refine .of_firm (Firm.limit.bind fun _ => (Firm.addSize _ _).bind fun _ =>
    (Firm.setLimit _).bind fun _ => Firm.pure _) fun {wire value after} done => ?_
  rw [(run_move_eq_ok done).2]
  exact Wire.Within.advance wire length

namespace VarField

variable (field : VarField) (low high : Nat)

theorem consume_confined : Confined low high field.consume :=
  .after_quiet field.length_quiet
    fun length => move_confined low high _ fun start => (start, length)

theorem skip_confined : Confined low high field.skip :=
  .after_quiet (Quiet.isOlder _) fun _ =>
    .ite ((Quiet.pure _).confined low high) ((field.consume_confined low high).map Prod.snd)

theorem bytes_confined : Confined low high field.bytes :=
  .after_quiet (Quiet.isOlder _) fun _ =>
    .ite ((Quiet.pure _).confined low high)
      ((field.consume_confined low high).bind (fun _ => (Quiet.slice _ _).confined low high)
        fun _ => Firm.slice _ _)

omit low high in
/-- A value that was written stands behind its length, where the limit has passed. -/
theorem run_put_eq_ok {source : List UInt8} {wire after : Wire} {value : Unit}
    (done : (field.put source).run wire = (.ok value, after)) :
    wire.cursor.limit + (sizedBytes source).length ≤ wire.buffer.capacity ∧
      after = wire.append (sizedBytes source) := by
  unfold VarField.put at done
  split at done
  · cases done
  · obtain ⟨start, middle, here, done⟩ := run_bind_eq_ok done
    cases here
    obtain ⟨sum, middle, added, done⟩ := run_bind_eq_ok done
    obtain ⟨rfl, rfl, _⟩ := run_addSize_eq_ok added
    obtain ⟨_, moved, advanced, done⟩ := run_bind_eq_ok done
    rw [run_setLimit_add] at advanced
    cases advanced
    obtain ⟨_, sized, written, done⟩ := run_bind_eq_ok done
    cases (run_putBytes_eq_ok written).2
    obtain ⟨inside, rfl⟩ := run_putBytes_eq_ok done
    rw [Wire.buffer_put, Buffer.capacity_overwrite, Nat.add_assoc, ← length_sizedBytes] at inside
    rw [← length_sizedBytes, Wire.append, sizedBytes, Wire.put_append]
    exact ⟨inside, rfl⟩

theorem put_confined (source : List UInt8) : Confined low high (field.put source) where
  done ended := by
    rw [(field.run_put_eq_ok ended).2]
    exact .append _ _
  refused {wire cause after} ended := by
    unfold VarField.put at ended
    split at ended
    · cases ended
      rfl
    · refine absurd ended (Firm.bind Firm.limit (fun _ => ?_) _ _ _)
      exact (Firm.addSize _ _).bind fun _ => (Firm.setLimit _).bind fun _ =>
        (Firm.putBytes _ _).bind fun _ => Firm.putBytes _ _

theorem access_confined (access : FieldAccess) : Confined low high (field.access access) := by
  unfold VarField.access
  split
  · split
    · exact ((field.bytes_confined low high).map _).map _
    · exact (Quiet.pure _).confined _ _
  · split
    · exact (Confined.after_quiet (encodeText_quiet _ _)
        fun _ => field.put_confined low high _).silent
    · exact (Quiet.pure _).confined _ _
  · exact (field.bytes_confined low high).map _
  · exact (field.put_confined low high _).silent
  · exact ((field.bytes_confined low high).map _).map _
  · exact (field.length_quiet.map _).confined _ _
  · exact (field.skip_confined low high).map _
  · exact (Quiet.pure _).confined _ _

end VarField

theorem GroupView.run_next_eq_ok {view moved : GroupView} {wire after : Wire}
    (done : view.next.run wire = (.ok moved, after)) :
    moved = view.after wire.cursor.limit ∧ after = wire.advance view.blockLength := by
  rw [GroupView.next_eq] at done
  split at done
  · exact run_move_eq_ok done
  · cases done

theorem GroupView.next_confined (view : GroupView) (low high : Nat) :
    Confined low high view.next := by
  rw [GroupView.next_eq]
  exact .ite (move_confined low high _ _) ((Quiet.refuse _).confined low high)

theorem GroupView.next_firm {view : GroupView} (more : view.taken < view.count) :
    Firm view.next := by
  rw [GroupView.next_eq, GroupView.hasNext, decide_eq_true more]
  exact Firm.limit.bind
    fun _ => (Firm.addSize _ _).bind fun _ => (Firm.setLimit _).bind fun _ => .pure _

theorem putNumber_firm (primitive : Primitive) (index pattern : Nat) :
    Firm (putNumber primitive index pattern) := Firm.putBytes _ _

theorem MessageShape.openWithHeader_firm (shape : MessageShape) (offset : Nat) :
    Firm (shape.openWithHeader offset) := by
  have header : Firm (shape.header.write offset) :=
    (putNumber_firm _ _ _).bind fun _ => (putNumber_firm _ _ _).bind fun _ =>
      (putNumber_firm _ _ _).bind fun _ => putNumber_firm _ _ _
  refine header.bind fun _ => (Firm.addSize _ _).bind fun start => (Firm.addSize _ _).bind ?_
  intro limit wire cause after refused
  cases refused

theorem GroupShape.run_openWrite_eq_ok {shape : GroupShape} {count : Nat} {view : GroupView}
    {wire after : Wire} (done : (shape.openWrite count).run wire = (.ok view, after)) :
    view = { name := shape.name, blockLength := shape.blockLength, count } ∧
      after = wire.append (dimensionBytes shape.blockLength count) := by
  unfold GroupShape.openWrite at done
  split at done
  · obtain ⟨start, middle, here, done⟩ := run_bind_eq_ok done
    cases here
    obtain ⟨_, sized, written, done⟩ := run_bind_eq_ok done
    cases (run_putBytes_eq_ok written).2
    obtain ⟨_, counted, written, done⟩ := run_bind_eq_ok done
    cases (run_putBytes_eq_ok written).2
    obtain ⟨sum, middle, added, done⟩ := run_bind_eq_ok done
    obtain ⟨rfl, rfl, _⟩ := run_addSize_eq_ok added
    cases done
    refine ⟨rfl, ?_⟩
    unfold Wire.append dimensionBytes
    rw [Wire.put_append]
    rfl
  · cases done

theorem GroupShape.openWrite_confined (shape : GroupShape) (count low high : Nat) :
    Confined low high (shape.openWrite count) where
  done {wire view after} ended := by
    rw [(GroupShape.run_openWrite_eq_ok ended).2]
    exact .append _ _
  refused {wire cause after} ended := by
    unfold GroupShape.openWrite at ended
    split at ended
    · refine absurd ended (Firm.bind Firm.limit (fun _ => ?_) _ _ _)
      exact (Firm.putBytes _ _).bind fun _ => (Firm.putBytes _ _).bind fun _ =>
        (Firm.addSize _ _).bind fun _ => (Firm.setLimit _).bind fun _ => Firm.pure _
    · cases ended
      rfl

/-! ### Messages and groups -/

/-- The number of bytes up to the end of the last member of a block. -/
def blockExtent (members : List Member) : Nat := (members.map Member.extent).max?.getD 0

namespace Element

variable (element : Element) {low high : Nat}

theorem extent_le {name : String} {member : Member}
    (found : Member.find? element.members name = some member) :
    member.extent ≤ blockExtent element.members :=
  List.le_max?_getD_of_mem (List.mem_map_of_mem (List.mem_of_find?_eq_some found))

/-- Whether an access by name sets a member of the block, and not a field of variable length. -/
def setsMember (name : String) (access : FieldAccess) : Bool :=
  (Member.find? element.members name).isSome && access.sets

theorem access_confined (name : String) (access : FieldAccess)
    (range : element.setsMember name access = true →
      low ≤ element.offset ∧ element.offset + blockExtent element.members ≤ high) :
    Confined low high (element.access name access) := by
  unfold Element.access
  split
  · rename_i member found
    have upto := element.extent_le found
    rw [setsMember, found, Option.isSome_some, Bool.true_and] at range
    refine (member.access_edits element.offset access fun sets => ?_).confined
    obtain ⟨above, below⟩ := range sets
    exact ⟨above, by omega⟩
  · exact VarField.access_confined _ low high access
  · exact (Quiet.pure _).confined low high

theorem accessSet_confined (name : String) (access : SetAccess)
    (range : access.sets = true →
      low ≤ element.offset ∧ element.offset + blockExtent element.members ≤ high) :
    Confined low high (element.accessSet name access) := by
  unfold Element.accessSet
  split
  · rename_i field found
    have upto : field.offset + field.type.primitive.size ≤ _ := element.extent_le found
    rw [field.view?_eq]
    refine Confined.after_looking (viewAt_quiet _ _ _ _) fun {_ view? _} looked => ?_
    split
    · rw [run_viewAt_eq_some looked]
      refine (SetView.access_edits _ access fun sets => ?_).confined
      obtain ⟨above, below⟩ := range sets
      exact ⟨by simp only; omega, by simp only; omega⟩
    · exact (Quiet.pure _).confined low high
  · exact (Quiet.pure _).confined low high

theorem accessComposite_confined (name : String) (access : CompositeAccess)
    (range : access.sets = true →
      low ≤ element.offset ∧ element.offset + blockExtent element.members ≤ high) :
    Confined low high (element.accessComposite name [access]) := by
  unfold Element.accessComposite
  split
  · rename_i field found
    have upto : field.offset + field.type.extent ≤ _ := element.extent_le found
    rw [field.view?_eq]
    refine Confined.after_looking (viewAt_quiet _ _ _ _) fun {_ view? _} looked => ?_
    split
    · rw [run_viewAt_eq_some looked]
      unfold CompositeView.access
      rw [List.mapM_cons]
      refine ((CompositeView.accessOne_edits _ access fun sets => ?_).confined.map _).map _
      obtain ⟨above, below⟩ := range sets
      exact ⟨by simp only; omega, by simp only; omega⟩
    · exact (Quiet.pure _).confined low high
  · exact (Quiet.pure _).confined low high

end Element

/-- An access to what a message or group holds. -/
inductive Access where
  | field (name : String) (access : FieldAccess)
  | bitSet (name : String) (access : SetAccess)
  | composite (name : String) (access : CompositeAccess)

namespace Access

/-- The work of an access. -/
def work (element : Element) : Access → Codec Datum
  | field name access => element.access name access
  | bitSet name access => element.accessSet name access
  | composite name access => element.accessComposite name [access]

/-- Whether an access sets something in the block of an element. -/
def sets (element : Element) : Access → Bool
  | field name access => element.setsMember name access
  | bitSet _ access => access.sets
  | composite _ access => access.sets

theorem confined {low high : Nat} {element : Element} (access : Access)
    (range : access.sets element = true →
      low ≤ element.offset ∧ element.offset + blockExtent element.members ≤ high) :
    Confined low high (access.work element) := by
  cases access with
  | field name access => exact element.access_confined name access range
  | bitSet name access => exact element.accessSet_confined name access range
  | composite name access => exact element.accessComposite_confined name access range

end Access

end Sbe.Codec
