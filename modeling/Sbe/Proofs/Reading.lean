import Sbe.Proofs.Locality
import Sbe.Proofs.Session

/-!
**What a session tells of a message.**

A session that reads a message in the order of its schema looks at a block, goes through the groups
behind it, and takes the fields of variable length. What it is told then depends on the bytes that
the schema knows about.

* `Tells`: the entries of steps on a block and on the bytes at the limit;
* `Tells.look`, `Tells.take`, `Tells.group`: the steps of a reader.
-/

namespace Sbe.Codec

/-- An entry without the limit it was kept at. -/
def Entry.forget : Entry → Entry
  | opened number _ => opened number 0
  | gave datum _ => gave datum 0
  | finished _ => finished 0
  | refused cause _ => refused cause 0
  | fault => fault

/-- The entry of an outcome, without a limit. -/
def Entry.ofOutcome : Outcome CodecError Datum → Entry
  | .ok datum => gave datum 0
  | .error (.refused cause) => refused cause 0
  | .error .fault => fault

open Session (steps run_bind_of_some run_keep run_perform_ok run_give_ok run_give_refused)

/-! ### What steps tell -/

/-- The step of an access. -/
def Access.step : Access → Step
  | field name access => .field name access
  | bitSet name access => .bitSet name access
  | composite name access => .composite name [access]

theorem Access.step_eq (access : Access) (element : Element) :
    Session.step access.step element = (do
      Session.give (access.work element)
      pure element) := by
  cases access <;> rfl

namespace VarField

/-- Whether an access moves past the value of a field. -/
def takes (field : VarField) : FieldAccess → Bool
  | .readText => field.charset.isSome
  | .readBytes | .copy _ | .skip => true
  | _ => false

/-- What is copied of a value, and the destination after that. -/
def copied (source destination : List UInt8) : Nat × List UInt8 :=
  let kept := source.take destination.length
  (kept.length, kept ++ destination.drop kept.length)

/-- What an access that moves past a value gives. -/
def taken (field : VarField) (source : List UInt8) : FieldAccess → Datum
  | .readText => (field.charset.map fun charset => Datum.text (charset.decode source)).getD .nothing
  | .readBytes => .bytes source
  | .copy capacity => .copied (copied source (emptyDestination capacity))
  | .skip => .whole source.length
  | _ => .nothing

theorem access_reads {field : VarField} {access : FieldAccess} {source : List UInt8} {version : Nat}
    (takes : field.takes access = true) (known : field.since ≤ version)
    (short : source.length < patternCount 4) :
    Reads version (field.access access) (sizedBytes source) (field.taken source access) := by
  cases access with
  | readText =>
    unfold VarField.access taken
    cases charset : field.charset with
    | none =>
      rw [VarField.takes, charset] at takes
      cases takes
    | some charset => exact (VarField.reads known short).map Datum.text
  | readBytes => exact (bytes_reads known short).map Datum.bytes
  | copy capacity =>
    exact ((bytes_reads known short).map (copied · (emptyDestination capacity))).map Datum.copied
  | skip => exact (skip_reads known short).map fun length => Datum.whole length
  | _ => cases takes

end VarField

/-- The entries of steps on an element whose block stands somewhere and behind which bytes stand at
the limit: the limit moves past the bytes, and the entries are told apart from the limits they are
kept at. -/
def Tells (known : Nat) (taken : List Step) (element : Element) (block tail : List UInt8)
    (news : List Entry) : Prop :=
  ∀ record : Record, Shows known record.wire element.offset block →
    record.wire.buffer.Holds record.wire.cursor.limit tail →
    record.wire.cursor.limit + tail.length < wordBound →
    ∃ entries, (steps taken element).run.run record =
        (some element, ⟨record.wire.advance tail.length, entries ++ record.entries⟩) ∧
      entries.reverse.map Entry.forget = news

namespace Tells

variable {known : Nat} {element : Element} {block : List UInt8}

theorem nil : Tells known [] element block [] [] :=
  fun _ _ _ _ => ⟨[], rfl, rfl⟩

theorem append {first second : List Step} {front back : List UInt8} {early late : List Entry}
    (one : Tells known first element block front early)
    (two : Tells known second element block back late) :
    Tells known (first ++ second) element block (front ++ back) (early ++ late) := by
  intro record shows holds small
  rw [List.length_append] at small
  obtain ⟨entries, ran, told⟩ := one record shows holds.left (by omega)
  obtain ⟨further, onward, heard⟩ :=
    two ⟨record.wire.advance front.length, entries ++ record.entries⟩
      ⟨shows.known, shows.holds, shows.small⟩ holds.right (by rw [Wire.limit_advance]; omega)
  refine ⟨further ++ entries, ?_, ?_⟩
  · rw [Session.steps_append, run_bind_of_some ran, onward, Wire.advance_advance,
      List.length_append, List.append_assoc]
  · rw [List.reverse_append, List.map_append, told, heard]

/-- A step that gives what some work finds, or why it is refused. -/
theorem of_give {step : Step} {work : Codec Datum} {tail : List UInt8}
    {result : Except CodecError Datum} (gives : Session.step step element = do
      Session.give work
      pure element)
    (done : ∀ wire : Wire, Shows known wire element.offset block →
      wire.buffer.Holds wire.cursor.limit tail → wire.cursor.limit + tail.length < wordBound →
      work.run wire = (result.mapError .refused, wire.advance tail.length)) :
    Tells known [step] element block tail [.ofOutcome (result.mapError .refused)] := by
  intro record shows holds small
  have ended := done record.wire shows holds small
  cases result with
  | ok datum =>
    refine ⟨[.gave datum (record.wire.cursor.limit + tail.length)], ?_, rfl⟩
    rw [steps, gives, bind_assoc, run_bind_of_some (run_give_ok ended)]
    rfl
  | error cause =>
    refine ⟨[.refused cause (record.wire.cursor.limit + tail.length)], ?_, rfl⟩
    rw [steps, gives, bind_assoc, run_bind_of_some (run_give_refused ended)]
    rfl

/-- A look at a block tells what is found in it. -/
theorem look {access : Access} (looks : access.looksAt element.members = true)
    (new : element.members.all (Member.isKnown known) = true)
    (inside : blockExtent element.members ≤ block.length) (short : block.length < wordBound) :
    Tells known [access.step] element block []
      [.ofOutcome (access.found known element.members block)] := by
  obtain ⟨result, found, done⟩ := Access.run_looking looks new inside short
  rw [found]
  exact of_give (access.step_eq element) fun wire shows _ _ => done wire shows

theorem looks {accesses : List Access}
    (looks : accesses.all (Access.looksAt element.members) = true)
    (new : element.members.all (Member.isKnown known) = true)
    (inside : blockExtent element.members ≤ block.length) (short : block.length < wordBound) :
    Tells known (accesses.map Access.step) element block []
      (accesses.map fun access => .ofOutcome (access.found known element.members block)) := by
  induction accesses with
  | nil => exact nil
  | cons access rest ih =>
    rw [List.all_cons, Bool.and_eq_true] at looks
    exact (look looks.1 new inside short).append (ih looks.2)

/-- Taking a field of variable length tells its value. -/
theorem take {field : VarField} {access : FieldAccess} {source : List UInt8}
    (takes : field.takes access = true) (new : field.since ≤ known)
    (short : source.length < patternCount 4)
    (apart : Member.find? element.members field.name = none)
    (found : element.varField? field.name = some field) :
    Tells known [.field field.name access] element block (sizedBytes source)
      [.gave (field.taken source access) 0] := by
  have named : element.access field.name access = field.access access := by
    unfold Element.access
    rw [apart, found]
  have gives : Session.step (.field field.name access) element = (do
      Session.give (field.access access)
      pure element) := by
    rw [Session.step, named]
  have done (wire : Wire) (shows : Shows known wire element.offset block)
      (holds : wire.buffer.Holds wire.cursor.limit (sizedBytes source))
      (small : wire.cursor.limit + (sizedBytes source).length < wordBound) :
      (field.access access).run wire =
        ((.ok (field.taken source access) : Except CodecError Datum).mapError .refused,
          wire.advance (sizedBytes source).length) :=
    VarField.access_reads takes (Nat.le_trans new shows.known) short wire rfl holds small
  exact of_give gives done

end Tells

/-! ### Groups -/

section Groups

variable {known : Nat} {ι : Type} {shape : GroupShape} {inner : List Step} {items : List ι}
  {part filler tail : ι → List UInt8} {news : ι → List Entry}

/-- The repetitions of a group tell their news one after another, whatever fills up their blocks. -/
theorem run_forEachUpTo (view : GroupView) (record : Record)
    (each : ∀ item ∈ items, ∀ view : GroupView,
      Tells known inner (.group shape view) (part item) (tail item) (news item))
    (sizes : ∀ item ∈ items, (part item ++ filler item).length = view.blockLength)
    (enough : view.taken + items.length ≤ view.count) (new : known ≤ record.wire.cursor.version)
    (holds : record.wire.buffer.Holds record.wire.cursor.limit
      (repetitions (fun item => part item ++ filler item) tail items))
    (small : record.wire.cursor.limit +
      (repetitions (fun item => part item ++ filler item) tail items).length < wordBound) :
    ∃ last entries, (Session.forEachUpTo (fun element => steps inner element) shape items.length
        (.group shape view)).run.run record =
        (some last, ⟨record.wire.advance
          (repetitions (fun item => part item ++ filler item) tail items).length,
          entries ++ record.entries⟩) ∧
      entries.reverse.map Entry.forget = items.flatMap news := by
  induction items generalizing view record with
  | nil => exact ⟨.group shape view, [], rfl, rfl⟩
  | cons item rest ih =>
    obtain ⟨first, later⟩ := List.forall_mem_cons.mp each
    obtain ⟨size, laterSizes⟩ := List.forall_mem_cons.mp sizes
    rw [List.length_cons] at enough
    rw [repetitions_cons] at holds small ⊢
    rw [List.length_append, List.length_append, size] at small
    have more : view.taken < view.count := by omega
    have moved : view.next.run record.wire = _ := GroupView.run_next more (by omega)
    -- The block is filled up behind its known part, and the tail starts where the filler ends.
    have behind := holds.left.right
    rw [size] at behind
    have shown : Shows known (record.wire.advance view.blockLength) record.wire.cursor.limit
        (part item) := by
      rw [List.length_append] at size
      exact ⟨new, holds.left.left.left, by omega⟩
    obtain ⟨entries, ran, told⟩ := first (view.after record.wire.cursor.limit)
      ⟨record.wire.advance view.blockLength, record.entries⟩ shown behind
      (by rw [Wire.limit_advance]; omega)
    have onward := holds.right
    rw [List.length_append, size, ← Nat.add_assoc] at onward
    obtain ⟨last, further, went, heard⟩ := ih (view.after record.wire.cursor.limit)
      ⟨(record.wire.advance view.blockLength).advance (tail item).length, entries ++ record.entries⟩
      later laterSizes (by show view.taken + 1 + rest.length ≤ view.count; omega) new onward
      (by rw [Wire.limit_advance, Wire.limit_advance]; omega)
    refine ⟨last, further ++ entries, ?_, ?_⟩
    · rw [List.length_cons, Session.forEachUpTo_succ, GroupView.hasNext,
        if_pos (decide_eq_true more), run_bind_of_some (run_perform_ok moved)]
      show ((steps inner _) >>= _).run.run _ = _
      rw [run_bind_of_some ran, went, Wire.advance_advance, Wire.advance_advance, ← Nat.add_assoc,
        ← size, ← List.length_append, ← List.length_append, List.append_assoc further]
    · rw [List.reverse_append, List.map_append, told, heard, List.flatMap_cons]

/-- A group that is gone through tells the news of its repetitions. -/
theorem Tells.group {name : String} {element : Element} {block : List UInt8} {blockLength : Nat}
    (found : element.group? name = some shape) (new : shape.since ≤ known)
    (each : ∀ item ∈ items, ∀ view : GroupView,
      Tells known inner (.group shape view) (part item) (tail item) (news item))
    (sizes : ∀ item ∈ items, (part item ++ filler item).length = blockLength)
    (lengthFits : blockLength < patternCount 2) (countFits : items.length < patternCount 2) :
    Tells known [.group name none [.forEach inner]] element block
      (dimensionBytes blockLength items.length ++
        repetitions (fun item => part item ++ filler item) tail items)
      (.opened items.length 0 :: (items.flatMap news ++ [.finished 0, .finished 0])) := by
  intro record shows holds small
  rw [List.length_append] at small
  have opened := GroupShape.openRead_reads (Nat.le_trans new shows.known) lengthFits countFits
    record.wire rfl holds.left (by omega)
  have start : record.wire.cursor.limit + (dimensionBytes blockLength items.length).length +
      (repetitions (fun item => part item ++ filler item) tail items).length < wordBound := by omega
  obtain ⟨last, entries, ran, told⟩ := run_forEachUpTo
    { name := shape.name, blockLength, count := items.length }
    ⟨record.wire.advance (dimensionBytes blockLength items.length).length, .opened items.length
      (record.wire.advance (dimensionBytes blockLength items.length).length).cursor.limit ::
        record.entries⟩ each sizes (Nat.le_of_eq (Nat.zero_add _)) shows.known holds.right start
  have gone := Session.run_group found opened (Session.run_forEach ran)
  rw [Wire.advance_advance, ← List.length_append] at gone
  -- Only the number of the bytes and the limit behind the dimensions matter from here on.
  generalize dimensionBytes blockLength items.length ++
    repetitions (fun item => part item ++ filler item) tail items = bytes at gone ⊢
  generalize (record.wire.advance (dimensionBytes blockLength items.length).length).cursor.limit =
    front at gone
  refine ⟨.finished (record.wire.advance bytes.length).cursor.limit ::
    .finished (record.wire.advance bytes.length).cursor.limit ::
      (entries ++ [.opened items.length front]), ?_, ?_⟩
  · rw [gone, List.cons_append, List.cons_append, List.append_assoc]
    rfl
  · simp [told, Entry.forget]

end Groups

/-! ### Messages -/

/-- A session on a message tells that it is open, and then what its steps tell. -/
theorem Tells.entries {known : Nat} {taken : List Step} {opening : Codec MessageView}
    {view : MessageView} {wire after : Wire} {block tail : List UInt8} {news : List Entry}
    (tells : Tells known taken (.message view) block tail news)
    (opened : opening.run wire = (.ok view, after)) (shows : Shows known after view.offset block)
    (holds : after.buffer.Holds after.cursor.limit tail)
    (small : after.cursor.limit + tail.length < wordBound) :
    Session.completes wire opening taken = true ∧
    (Session.entries wire opening taken).1.map Entry.forget = .opened view.offset 0 :: news ∧
    (Session.entries wire opening taken).2 = after.advance tail.length := by
  obtain ⟨entries, ran, told⟩ :=
    tells ⟨after, [.opened view.offset after.cursor.limit]⟩ shows holds small
  have done : (Session.message opening taken).run.run { wire } =
      (some (),
        ⟨after.advance tail.length, entries ++ [.opened view.offset after.cursor.limit]⟩) := by
    rw [Session.message, run_bind_of_some (run_perform_ok opened)]
    simp only
    rw [run_bind_of_some (Session.run_limit _), run_bind_of_some (run_keep _ _),
      run_bind_of_some ran]
    rfl
  unfold Session.completes Session.entries
  rw [done]
  refine ⟨rfl, ?_, rfl⟩
  show (entries ++ [_]).reverse.map Entry.forget = _
  rw [List.reverse_append, List.map_append, told]
  rfl

end Sbe.Codec
