import Sbe.Proofs.Confinement

/-!
**Blocks that are read wherever they stand.**

What a getter finds in a block is decided by the bytes of the block. Neither its place in the buffer
nor anything around it matters, as long as the message is new enough to have the field.

* `Shows`: a block stands at a place of a wire;
* `Local`: work with one result for each block, for every getter of a fixed block;
* `Access.run_looking`: what a look at a message or group gives.
-/

namespace Sbe.Codec

variable {α β : Type}

/-- A block stands at a place of a wire whose message is new enough. -/
structure Shows (known : Nat) (wire : Wire) (base : Nat) (block : List UInt8) : Prop where
  known : known ≤ wire.cursor.version
  holds : wire.buffer.Holds base block
  small : base + block.length < wordBound

theorem Shows.drop {known base : Nat} {wire : Wire} {block : List UInt8}
    (shows : Shows known wire base block) {offset : Nat} (inside : offset ≤ block.length) :
    Shows known wire (base + offset) (block.drop offset) where
  known := shows.known
  holds := by
    have holds := shows.holds
    rw [← List.take_append_drop offset block] at holds
    have behind := holds.right
    rwa [List.length_take, Nat.min_eq_left inside] at behind
  small := by
    have small := shows.small
    rw [List.length_drop]
    omega

theorem Shows.run_slice {known base offset length : Nat} {wire : Wire} {block : List UInt8}
    (shows : Shows known wire base block) (inside : offset + length ≤ block.length) :
    (slice (base + offset) length).run wire = (.ok ((block.drop offset).take length), wire) := by
  have behind := (shows.drop (Nat.le_trans (Nat.le_add_right _ _) inside)).holds
  rw [← List.take_append_drop length (block.drop offset)] at behind
  have found := behind.left.slice_eq (ε := CodecError)
  rw [List.length_take, List.length_drop, Nat.min_eq_left (by omega)] at found
  exact congrArg (·, wire) found

/-- Work on a block that has one result for each block, a value or a refusal, and leaves the
wire. -/
def Local (known size : Nat) (work : Nat → Codec α) : Prop :=
  ∀ block : List UInt8, size ≤ block.length → ∃ result : Except CodecError α,
    ∀ wire base, Shows known wire base block →
      (work base).run wire = (result.mapError .refused, wire)

namespace Local

variable {known size : Nat}

theorem pure (value : α) : Local known size fun _ => (pure value : Codec α) :=
  fun _ _ => ⟨.ok value, fun _ _ _ => rfl⟩

theorem refuse (cause : CodecError) : Local known size fun _ => (refuse cause : Codec α) :=
  fun _ _ => ⟨.error cause, fun _ _ _ => rfl⟩

theorem slice {offset length : Nat} (inside : offset + length ≤ size) :
    Local known size fun base => slice (base + offset) length :=
  fun _ enough => ⟨.ok _, fun _ _ shows => shows.run_slice (Nat.le_trans inside enough)⟩

theorem bind {first : Nat → Codec α} {next : α → Nat → Codec β} (one : Local known size first)
    (two : ∀ value, Local known size (next value)) :
    Local known size fun base => first base >>= fun value => next value base := by
  intro block enough
  obtain ⟨found, looked⟩ := one block enough
  cases found with
  | error cause =>
    refine ⟨.error cause, fun wire base shows => ?_⟩
    rw [run_bind, looked wire base shows]
    rfl
  | ok value =>
    obtain ⟨result, done⟩ := two value block enough
    refine ⟨result, fun wire base shows => ?_⟩
    rw [run_bind_of_ok (looked wire base shows), done wire base shows]

theorem map {work : Nat → Codec α} (found : Local known size work) (image : α → β) :
    Local known size fun base => work base >>= fun value => Pure.pure (image value) :=
  found.bind fun value => pure (image value)

theorem ite {condition : Prop} [Decidable condition] {yes no : Nat → Codec α}
    (one : Local known size yes) (two : Local known size no) :
    Local known size fun base => if condition then yes base else no base := by
  by_cases held : condition
  · simpa only [if_pos held] using one
  · simpa only [if_neg held] using two

/-- A message that is new enough has the field. -/
theorem of_known {since : Nat} (new : since ≤ known) {absent : Codec α} {present : Nat → Codec α}
    (found : Local known size present) :
    Local known size fun base => (do if ← isOlder since then absent else present base) := by
  intro block enough
  obtain ⟨result, done⟩ := found block enough
  refine ⟨result, fun wire base shows => ?_⟩
  rw [run_of_known (Nat.le_trans new shows.known), done wire base shows]

/-- Work on a part of a block is work on the block. -/
theorem shift {part offset : Nat} {work : Nat → Codec α} (found : Local known part work)
    (inside : offset + part ≤ size) : Local known size fun base => work (base + offset) := by
  intro block enough
  obtain ⟨result, done⟩ := found (block.drop offset) (by rw [List.length_drop]; omega)
  exact ⟨result, fun wire base shows => done wire _ (shows.drop (by omega))⟩

theorem mapM {work : β → Nat → Codec α} {items : List β}
    (each : ∀ item ∈ items, Local known size (work item)) :
    Local known size fun base => items.mapM fun item => work item base := by
  induction items with
  | nil => exact pure []
  | cons item rest ih =>
    obtain ⟨first, later⟩ := List.forall_mem_cons.mp each
    simp only [List.mapM_cons]
    exact first.bind fun value => (ih later).map (value :: ·)

theorem getNumber {primitive : Primitive} {offset : Nat} (inside : offset + primitive.size ≤ size) :
    Local known size fun base => getNumber primitive (base + offset) :=
  (slice inside).map _

end Local

/-! ### Getters of a fixed block -/

section Getters

variable {known size : Nat}

theorem NumberField.read_local {field : NumberField} (new : field.since ≤ known)
    (inside : field.offset + field.primitive.size ≤ size) : Local known size field.read :=
  .of_known new (.getNumber inside)

theorem NumberField.access_local {field : NumberField} {access : FieldAccess}
    (getter : access.sets = false) (new : field.since ≤ known)
    (inside : field.offset + field.primitive.size ≤ size) :
    Local known size fun base => field.access base access := by
  cases access with
  | read | readRaw => exact (NumberField.read_local new inside).map _
  | write => cases getter
  | _ => exact .pure _

theorem ArrayField.readAt_local {field : ArrayField} {index : Nat} (new : field.since ≤ known)
    (inside : field.offset + field.length * field.primitive.size ≤ size) :
    Local known size fun base => field.readAt base index := by
  unfold ArrayField.readAt ArrayField.testIndex ArrayField.elementIndex
  by_cases bound : index < field.length
  · have upto := Nat.mul_le_mul_right field.primitive.size (Nat.succ_le_of_lt bound)
    rw [Nat.succ_mul] at upto
    simp only [if_pos bound, Nat.add_assoc]
    exact (Local.pure ()).bind fun _ => .of_known new (.getNumber (by omega))
  · simp only [if_neg bound]
    exact fun _ _ => ⟨.error _, fun _ _ _ => rfl⟩

theorem ArrayField.access_local {field : ArrayField} {access : FieldAccess}
    (getter : access.sets = false) (new : field.since ≤ known)
    (inside : field.offset + field.length * field.primitive.size ≤ size) :
    Local known size fun base => field.access base access := by
  cases access with
  | readAt index => exact (ArrayField.readAt_local new inside).map _
  | writeAt => cases getter
  | _ => exact .pure _

theorem TextField.read_local {field : TextField} (new : field.since ≤ known)
    (inside : field.offset + field.length ≤ size) : Local known size field.read :=
  .of_known new ((Local.slice inside).map _)

theorem TextField.access_local {field : TextField} {access : FieldAccess}
    (getter : access.sets = false) (new : field.since ≤ known)
    (inside : field.offset + field.length ≤ size) :
    Local known size fun base => field.access base access := by
  cases access with
  | readText => exact (TextField.read_local new inside).map _
  | copy capacity =>
    exact (Local.ite (.refuse _) (.of_known new ((Local.slice inside).map _))).map _
  | writeText | writeBytes => cases getter
  | _ =>
    have whole : field.elements.offset + field.elements.length * field.elements.primitive.size ≤
        size := by
      rwa [show field.elements.length * field.elements.primitive.size =
        field.length from Nat.mul_one _]
    exact ArrayField.access_local getter new whole

theorem EnumField.access_local {field : EnumField} {access : FieldAccess}
    (getter : access.sets = false) (new : field.since ≤ known)
    (inside : field.offset + field.type.primitive.size ≤ size) :
    Local known size fun base => field.access base access := by
  have raw : Local known size field.readRaw := .of_known new (.getNumber inside)
  cases access with
  | read =>
    have read : Local known size field.read := by
      refine raw.bind fun pattern => ?_
      unfold EnumValue.ofRaw
      split
      · exact .pure _
      · split
        · exact .pure _
        · exact .refuse _
    exact read.map _
  | readRaw => exact raw.map _
  | choose => cases getter
  | _ => exact .pure _

theorem SetView.access_local {type : SetType} {access : SetAccess} (getter : access.sets = false)
    (inside : type.primitive.size ≤ size) :
    Local known size fun base => (SetView.mk type base).access access := by
  have raw : Local known size fun base => (SetView.mk type base).raw := by
    have number : Local known size fun base => getNumber type.primitive (base + 0) :=
      .getNumber (by omega)
    exact number
  cases access with
  | raw => exact raw.map (Datum.number type.primitive)
  | text =>
    have text : Local known size fun base => (SetView.mk type base).text := by
      simp only [SetView.text_eq]
      split
      · exact .pure _
      · exact raw.map type.text
    exact text.map Datum.text
  | clear | change => cases getter
  | test choice =>
    unfold SetView.access
    simp only
    cases type.choices.lookup choice with
    | none => exact .pure _
    | some bit => exact raw.map _

/-- Whether a message of a version has a part. -/
def Part.isKnown (known : Nat) : Part → Bool
  | number field => decide (field.since ≤ known)
  | text field => decide (field.since ≤ known)
  | constantNumber .. | constantText _ => true

theorem Part.access_local {part : Part} {access : FieldAccess} (getter : access.sets = false)
    (new : part.isKnown known = true) (inside : part.extent ≤ size) :
    Local known size fun base => part.access base access := by
  cases part with
  | number field => exact NumberField.access_local getter (of_decide_eq_true new) inside
  | text field => exact TextField.access_local getter (of_decide_eq_true new) inside
  | constantNumber name value =>
    cases access with
    | read => exact .pure _
    | _ => exact .pure _
  | constantText constant =>
    cases access with
    | readText => exact .pure _
    | copy => exact .pure _
    | readAt index =>
      have byte : Local known size fun _ => ofOutcome (constant.byteAt index) := by
        unfold ConstantText.byteAt
        cases constant.bytes[index]? with
        | none => exact .refuse _
        | some byte => exact .pure byte
      exact byte.map _
    | _ => exact .pure _

theorem CompositeView.text_local {type : CompositeType}
    (new : type.parts.all (Part.isKnown known) = true) (inside : type.extent ≤ size) :
    Local known size fun base => (CompositeView.mk type base).text := by
  have entries : Local known size fun base =>
      (type.parts.filter Part.isShown).mapM (CompositeView.mk type base).entry := by
    refine Local.mapM fun part listed => ?_
    have member := List.mem_of_mem_filter listed
    have fresh := List.all_eq_true.mp new part member
    have upto : part.extent ≤ type.extent := List.le_max?_getD_of_mem (List.mem_map_of_mem member)
    cases part with
    | number field =>
      simp only [CompositeView.entry_number]
      exact (NumberField.read_local (of_decide_eq_true fresh) (Nat.le_trans upto inside)).map _
    | text field =>
      simp only [CompositeView.entry_text]
      exact (TextField.read_local (of_decide_eq_true fresh) (Nat.le_trans upto inside)).map _
    | constantNumber | constantText => exact .pure ""
  simp only [CompositeView.text_eq]
  exact entries.map _

/-- Whether an access to a composite finds out about its content, and not about its place. -/
def CompositeAccess.looks : CompositeAccess → Bool
  | offset => false
  | encodedLength | text => true
  | part _ access => !access.sets

theorem CompositeView.accessOne_local {type : CompositeType} {access : CompositeAccess}
    (looks : access.looks = true) (new : type.parts.all (Part.isKnown known) = true)
    (inside : type.extent ≤ size) :
    Local known size fun base => (CompositeView.mk type base).accessOne access := by
  cases access with
  | offset => cases looks
  | encodedLength => exact .pure (Datum.whole type.encodedLength)
  | text => exact (CompositeView.text_local new inside).map Datum.text
  | part name access =>
    unfold CompositeView.accessOne
    simp only
    cases found : type.parts.find? fun part => part.name == name with
    | none => exact .pure _
    | some part =>
      have member := List.mem_of_find?_eq_some found
      have upto : part.extent ≤ type.extent := List.le_max?_getD_of_mem (List.mem_map_of_mem member)
      exact Part.access_local (Bool.not_eq_true' _ ▸ looks) (List.all_eq_true.mp new part member)
        (Nat.le_trans upto inside)

/-- Whether a message of a version has a member. -/
def Member.isKnown (known : Nat) : Member → Bool
  | composite field => decide (field.since ≤ known) && field.type.parts.all (Part.isKnown known)
  | member => decide (member.place.since ≤ known)

theorem Member.access_local {member : Member} {access : FieldAccess} (getter : access.sets = false)
    (new : member.isKnown known = true) (inside : member.extent ≤ size) :
    Local known size fun base => member.access base access := by
  cases member with
  | number field => exact NumberField.access_local getter (of_decide_eq_true new) inside
  | array field => exact ArrayField.access_local getter (of_decide_eq_true new) inside
  | text field => exact TextField.access_local getter (of_decide_eq_true new) inside
  | enumeration field => exact EnumField.access_local getter (of_decide_eq_true new) inside
  | constantEnum place type value =>
    cases access with
    | read => exact .pure _
    | _ => exact .pure _
  | bitSet field => exact .pure _
  | composite field => exact .pure _

end Getters

/-! ### Looks at a message or group -/

/-- What a message is new enough to have is found at its offset in the block. -/
theorem viewAt_local {place : Nat → α} {next : Option α → Codec β}
    {known since offset part size : Nat}
    (found : Local known part fun base => next (some (place base))) (new : since ≤ known)
    (inside : offset + part ≤ size) :
    Local known size fun base => viewAt place since offset base >>= next := by
  intro block enough
  obtain ⟨result, done⟩ := found.shift inside block enough
  refine ⟨result, fun wire base shows => ?_⟩
  have small := shows.small
  have placed : (viewAt place since offset base).run wire =
      (.ok (some (place (base + offset))), wire) := by
    rw [viewAt, run_of_known (Nat.le_trans new shows.known), bind_assoc,
      run_bind_of_ok (run_addSize (by omega) wire)]
    rfl
  rw [run_bind_of_ok placed]
  exact done wire base shows

theorem Element.access_member {element : Element} {name : String} {member : Member}
    (found : Member.find? element.members name = some member) (access : FieldAccess) :
    element.access name access = member.access element.offset access := by
  unfold Element.access
  rw [found]

/-- A message of which nothing matters but its block. -/
def Element.standIn (members : List Member) (base : Nat) : Element :=
  .message ⟨⟨"", 0, 0, 0, 0, "", members, [], []⟩, base, 0⟩

namespace Access

/-- Whether an access only looks at the block of a message or group. -/
def looksAt (members : List Member) : Access → Bool
  | field name access => (Member.find? members name).isSome && !access.sets
  | bitSet _ access => !access.sets
  | composite _ access => access.looks

theorem work_standIn {element : Element} {access : Access}
    (looks : access.looksAt element.members = true) :
    access.work element = access.work (.standIn element.members element.offset) := by
  cases access with
  | bitSet name access => rfl
  | composite name access => rfl
  | field name access =>
    rw [looksAt, Bool.and_eq_true, Option.isSome_iff_exists] at looks
    obtain ⟨⟨member, found⟩, _⟩ := looks
    have same : Member.find? (Element.standIn element.members element.offset).members name =
        some member := found
    show element.access name access = (Element.standIn _ _).access name access
    rw [Element.access_member found, Element.access_member same]
    rfl

theorem work_local {known size : Nat} {members : List Member} {access : Access}
    (looks : access.looksAt members = true) (new : members.all (Member.isKnown known) = true)
    (inside : blockExtent members ≤ size) :
    Local known size fun base => access.work (.standIn members base) := by
  have each {name : String} {member : Member} (found : Member.find? members name = some member) :
      member.isKnown known = true ∧ member.extent ≤ size :=
    ⟨List.all_eq_true.mp new member (List.mem_of_find?_eq_some found),
      Nat.le_trans ((Element.standIn members 0).extent_le found) inside⟩
  cases access with
  | field name access =>
    rw [looksAt, Bool.and_eq_true, Option.isSome_iff_exists, Bool.not_eq_true'] at looks
    obtain ⟨⟨member, found⟩, getter⟩ := looks
    obtain ⟨fresh, fits⟩ := each found
    have same : (fun base => work (.standIn members base) (field name access)) =
        fun base => member.access base access := by
      funext base
      have found : Member.find? (Element.standIn members base).members name = some member := found
      exact Element.access_member found access
    rw [same]
    exact Member.access_local getter fresh fits
  | bitSet name access =>
    rw [looksAt, Bool.not_eq_true'] at looks
    simp only [work, Element.accessSet, Element.standIn, Element.members, Element.offset]
    split
    · rename_i field found
      obtain ⟨fresh, fits⟩ := each found
      simp only [SetField.view?_eq]
      exact viewAt_local (SetView.access_local looks (Nat.le_refl _)) (of_decide_eq_true fresh) fits
    · exact .pure _
  | composite name access =>
    simp only [work, Element.accessComposite, Element.standIn, Element.members, Element.offset]
    split
    · rename_i field found
      obtain ⟨fresh, fits⟩ := each found
      rw [Member.isKnown, Bool.and_eq_true] at fresh
      simp only [CompositeField.view?_eq]
      refine viewAt_local ?_ (of_decide_eq_true fresh.1) fits
      have one := CompositeView.accessOne_local looks fresh.2 (Nat.le_refl field.type.extent)
      simp only [CompositeView.access, List.mapM_cons]
      exact (one.map _).map _
    · exact .pure _

/-- What a look finds in a block. -/
def found (known : Nat) (members : List Member) (block : List UInt8) (access : Access) :
    Outcome CodecError Datum :=
  ((access.work (.standIn members 0)).run ⟨.ofList block, ⟨0, known⟩⟩).1

/-- A look finds the same in a block wherever it stands, and never ends in a fault. -/
theorem run_looking {known : Nat} {element : Element} {access : Access} {block : List UInt8}
    (looks : access.looksAt element.members = true)
    (new : element.members.all (Member.isKnown known) = true)
    (inside : blockExtent element.members ≤ block.length) (short : block.length < wordBound) :
    ∃ result : Except CodecError Datum,
      access.found known element.members block = result.mapError .refused ∧
      ∀ wire, Shows known wire element.offset block →
        (access.work element).run wire = (result.mapError .refused, wire) := by
  obtain ⟨result, done⟩ := work_local looks new (Nat.le_refl _) block inside
  refine ⟨result, ?_, fun wire shows => ?_⟩
  · have alone : Shows known ⟨.ofList block, ⟨0, known⟩⟩ 0 block :=
      ⟨Nat.le_refl _, ⟨[], [], by simp, rfl⟩, by rwa [Nat.zero_add]⟩
    rw [found, done _ 0 alone]
  · rw [work_standIn looks, done wire _ shows]

end Access

end Sbe.Codec
