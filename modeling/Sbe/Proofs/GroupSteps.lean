import Sbe.Proofs.LimitBounds
import Sbe.Proofs.Noninterference

/-!
**Steps on groups.**

A group takes its repetitions one by one. Whatever is done with the current repetition, its accesses
and the groups inside it, moves the limit that they share, but not the position of the group.

* `GroupView.Tracks`: what holds of a group from its opening on, step after step;
* `Session.Leaves`, `Session.Tracking`: pieces of a session that leave a group where it is, and
  pieces that take repetitions;
* `Session.step_keeps`: every step on a group, with the groups inside it;
* `Session.steps_progress`: how many repetitions have been taken after some calls.
-/

namespace Sbe

/-- Whether the bytes of a wire can stand in memory: a buffer takes at most half of the
addresses. -/
def Wire.IsAddressable (wire : Wire) : Prop := wire.buffer.capacity < 9223372036854775808

namespace Codec

/-- How far behind the buffer the limit may be moved by work on a repetition. -/
def reach : Nat := 4611686018427387904

/-! ### Groups from their opening on -/

/-- What holds of a group that was opened at a wire: it has taken no more repetitions than it has,
and the limit has moved on by their blocks and by what its accesses can move it. -/
structure GroupView.Tracks (slack : Nat) (opened : Wire) (view : GroupView) (wire : Wire) :
    Prop where
  count : view.count < patternCount 2
  blockLength : view.blockLength < patternCount 2
  inside : 0 < view.count → opened.cursor.limit ≤ opened.buffer.capacity
  taken : view.taken ≤ view.count
  bounded : opened.Bounded (slack + view.taken * view.blockLength) wire

namespace GroupView.Tracks

variable {slack : Nat} {opened wire after : Wire} {view : GroupView}

theorem step (tracks : view.Tracks slack opened wire) (moved : wire.Bounded slack after) :
    view.Tracks slack opened after :=
  { tracks with bounded := tracks.bounded.trans (moved.mono (Nat.le_add_right _ _)) }

theorem next (tracks : view.Tracks slack opened wire) (more : view.taken < view.count)
    (start : Nat) : (view.after start).Tracks slack opened (wire.advance view.blockLength) := by
  obtain ⟨kept, near⟩ := tracks.bounded
  have inside := tracks.inside (by omega)
  refine ⟨tracks.count, tracks.blockLength, tracks.inside, more, kept, ?_⟩
  have blocks : (view.taken + 1) * view.blockLength =
      view.taken * view.blockLength + view.blockLength :=
    Nat.succ_mul _ _
  simp only [Wire.limit_advance, GroupView.after, blocks]
  omega

theorem mono {wider : Nat} (tracks : view.Tracks slack opened wire) (less : slack ≤ wider) :
    view.Tracks wider opened wire :=
  { tracks with bounded := tracks.bounded.mono (Nat.add_le_add_right less _) }

/-- All blocks of a group together are no longer than a field of variable length can be. -/
theorem closed (tracks : view.Tracks slack opened wire) :
    opened.Bounded (slack + lengthCount) wire := by
  refine tracks.bounded.mono (Nat.add_le_add_left ?_ slack)
  calc view.taken * view.blockLength
      ≤ patternCount 2 * patternCount 2 :=
        Nat.mul_le_mul (Nat.le_of_lt (Nat.lt_of_le_of_lt tracks.taken tracks.count))
          (Nat.le_of_lt tracks.blockLength)
    _ = lengthCount := rfl

/-- The next block of a group is in reach of the limit. -/
theorem small (tracks : view.Tracks slack opened wire) (addressable : opened.IsAddressable)
    (near : slack ≤ reach) (more : view.taken < view.count) :
    wire.cursor.limit + view.blockLength < wordBound := by
  have inside := tracks.inside (by omega)
  have short : view.blockLength < 65536 := tracks.blockLength
  have limit := tracks.closed.limit
  have room : opened.buffer.capacity < 9223372036854775808 := addressable
  simp only [lengthCount, reach, wordBound] at *
  omega

end GroupView.Tracks

namespace GroupView

theorem run_next_of_exhausted {view : GroupView} (none : view.count ≤ view.taken) (wire : Wire) :
    view.next.run wire = (.error (.refused (.groupExhausted view.name view.count)), wire) := by
  rw [next_eq, hasNext, decide_eq_false (Nat.not_lt.mpr none)]
  rfl

theorem index_after (view : GroupView) (start : Nat) : (view.after start).index = view.taken := by
  show ((view.taken + 1 : Nat) : Int) - 1 = view.taken
  omega

theorem taken_lt_of_run_next {view moved : GroupView} {wire after : Wire}
    (done : view.next.run wire = (.ok moved, after)) : view.taken < view.count := by
  by_cases more : view.taken < view.count
  · exact more
  · rw [run_next_of_exhausted (Nat.not_lt.mp more)] at done
    cases done

end GroupView

/-- Whether a group can be written: its dimensions have two bytes each, and groups inside it are no
more than `depth` levels deep, its own among them. -/
def GroupShape.fits : Nat → GroupShape → Bool
  | 0, _ => false
  | depth + 1, shape =>
    decide (shape.blockLength < patternCount 2 ∧ shape.greatestCount < patternCount 2) &&
      shape.groups.all (fits depth)

theorem GroupShape.fits_succ {shape : GroupShape} {depth : Nat}
    (fits : shape.fits (depth + 1) = true) :
    (shape.blockLength < patternCount 2 ∧ shape.greatestCount < patternCount 2) ∧
    ∀ inner ∈ shape.groups, inner.fits depth = true := by
  rw [GroupShape.fits, Bool.and_eq_true, decide_eq_true_eq, List.all_eq_true] at fits
  exact fits

theorem GroupShape.exists_of_fits {shape : GroupShape} {depth : Nat}
    (fits : shape.fits depth = true) : ∃ less, depth = less + 1 := by
  cases depth with
  | zero => cases fits
  | succ less => exact ⟨less, rfl⟩

theorem GroupShape.tracks_of_opening {shape : GroupShape} {written : Option Nat} {depth : Nat}
    {view : GroupView} {wire opened : Wire} (fits : shape.fits depth = true)
    (done : (shape.opening written).run wire = (.ok view, opened)) (slack : Nat) :
    view.Tracks slack opened opened := by
  obtain ⟨less, rfl⟩ := exists_of_fits fits
  obtain ⟨⟨block, greatest⟩, _⟩ := fits_succ fits
  obtain ⟨rfl, capacity, limit⟩ := opened_of_opening done
  refine ⟨?_, ?_, fun some => ?_, Nat.zero_le _, .refl _ _⟩
  · cases written with
    | some count => exact Nat.lt_of_le_of_lt (inside_of_openWrite done).1 greatest
    | none =>
      show (if _ then 0 else _) < _
      split
      · decide
      · exact numberAt_lt_patternCount _ _ _
  · show (if _ then _ else _) < _
    split
    · exact block
    · exact numberAt_lt_patternCount _ _ _
  · rcases limit with ⟨_, none⟩ | ⟨_, inside⟩
    · exact absurd none (Nat.pos_iff_ne_zero.mp some)
    · exact capacity ▸ inside

/-! ### Steps -/

mutual

/-- Whether a step uses a group or what is in it: it does not set the limit itself, and asks for no
text as a whole. -/
def Step.isUse : Step → Bool
  | .ask queries => queries.all Query.isPlain
  | .setLimit _ => false
  | .field _ _ | .bitSet _ _ | .composite _ _ | .next => true
  | .group _ _ inner | .forEach inner => Step.allUse inner

/-- Whether all steps are uses. -/
def Step.allUse : List Step → Bool
  | [] => true
  | step :: rest => step.isUse && Step.allUse rest

end

/-- Whether a step takes the next repetition. -/
def Step.isNext : Step → Bool
  | .next => true
  | _ => false

/-- Whether a step is a single call: it takes the next repetition, asks a question, or is about the
current repetition or a group inside it. -/
def Step.isCall : Step → Bool
  | .forEach _ => false
  | step => step.isUse

theorem Step.isUse_of_isCall {call : Step} (single : call.isCall = true) : call.isUse = true := by
  cases call with
  | forEach inner => cases single
  | _ => exact single

theorem Step.allUse_eq_true {taken : List Step} :
    Step.allUse taken = true ↔ ∀ step ∈ taken, step.isUse = true := by
  induction taken with
  | nil => simp [Step.allUse]
  | cons step rest ih => rw [Step.allUse, Bool.and_eq_true, ih, List.forall_mem_cons]

namespace Session

theorem run_perform_next {view : GroupView} {record after : Record} {result : Option GroupView}
    (done : (perform view.next).run.run record = (some result, after)) :
    (view.taken < view.count ∧ result = some (view.after record.wire.cursor.limit) ∧
        after.wire = record.wire.advance view.blockLength) ∨
      (view.count ≤ view.taken ∧ result = none ∧ after.wire = record.wire) := by
  by_cases more : view.taken < view.count
  · rcases run_perform_eq_some done with ⟨moved, ran, rfl⟩ | ⟨cause, ran, rfl⟩
    · obtain ⟨rfl, same⟩ := GroupView.run_next_eq_ok ran
      exact .inl ⟨more, rfl, same⟩
    · exact absurd ran (GroupView.next_firm more _ _ _)
  · rw [run_perform_refused (GroupView.run_next_of_exhausted (Nat.not_lt.mp more) _)] at done
    cases done
    exact .inr ⟨Nat.not_lt.mp more, rfl, rfl⟩

/-- A piece of a session on a group that goes on with the group as it is then. -/
def Tracking (slack : Nat) (shape : GroupShape) (work : GroupView → Session Element) : Prop :=
  ∀ ⦃opened view record element after⦄, (work view).run.run record = (some element, after) →
    view.Tracks slack opened record.wire →
    ∃ moved, element = .group shape moved ∧ moved.Tracks slack opened after.wire

variable {slack : Nat} {shape : GroupShape}

/-- A piece of a session on a group that leaves the group where it is. -/
def Leaves (slack : Nat) (shape : GroupShape) (work : GroupView → Session Element) : Prop :=
  ∀ ⦃view record element after⦄, (work view).run.run record = (some element, after) →
    element = .group shape view ∧ record.wire.Bounded slack after.wire

theorem Leaves.tracking {work : GroupView → Session Element} (leaves : Leaves slack shape work) :
    Tracking slack shape work := by
  intro opened view record element after done tracks
  obtain ⟨rfl, bounded⟩ := leaves done
  exact ⟨view, rfl, tracks.step bounded⟩

theorem give_leaves {work : GroupView → Codec Datum} (bounded : ∀ view, Bounded slack (work view)) :
    Leaves slack shape fun view => give (work view) >>= fun _ => pure (.group shape view) := by
  intro view record element after done
  obtain ⟨_, middle, gave, done⟩ := run_bind_eq_some done
  cases done
  obtain ⟨outcome, ended, passed⟩ := run_give_eq_some gave
  exact ⟨rfl, bounded view ended passed⟩

theorem next_tracking : Tracking slack shape fun view => step .next (.group shape view) := by
  intro opened view record element after done tracks
  simp only [step_next] at done
  obtain ⟨result, middle, performed, done⟩ := run_bind_eq_some done
  rcases run_perform_next performed with ⟨more, rfl, moved⟩ | ⟨_, rfl, same⟩
  · cases done
    exact ⟨_, rfl, moved ▸ tracks.next more _⟩
  · cases done
    exact ⟨view, rfl, same ▸ tracks⟩

/-- Going through repetitions: one repetition after another. -/
theorem forEachUpTo_tracking {work : Element → Session Element}
    (each : Tracking slack shape fun view => work (.group shape view)) (fuel : Nat) :
    Tracking slack shape fun view => forEachUpTo work shape fuel (.group shape view) := by
  induction fuel with
  | zero =>
    intro opened view record element after done tracks
    cases done
    exact ⟨view, rfl, tracks⟩
  | succ fuel ih =>
    intro opened view record element after done tracks
    simp only [forEachUpTo_succ] at done
    split at done
    · obtain ⟨result, middle, performed, done⟩ := run_bind_eq_some done
      rcases run_perform_next performed with ⟨more, rfl, moved⟩ | ⟨_, rfl, same⟩
      · obtain ⟨element, later, worked, done⟩ := run_bind_eq_some done
        obtain ⟨moved, rfl, tracks⟩ := each worked (moved ▸ tracks.next more _)
        exact ih done tracks
      · cases done
        exact ⟨view, rfl, same ▸ tracks⟩
    · cases done
      exact ⟨view, rfl, tracks⟩

theorem steps_tracking {taken : List Step}
    (each : ∀ call ∈ taken, Tracking slack shape fun view => step call (.group shape view)) :
    Tracking slack shape fun view => steps taken (.group shape view) := by
  induction taken with
  | nil =>
    intro opened view record element after done tracks
    cases done
    exact ⟨view, rfl, tracks⟩
  | cons first rest ih =>
    obtain ⟨one, later⟩ := List.forall_mem_cons.mp each
    intro opened view record element after done tracks
    obtain ⟨middle, between, stepped, done⟩ := run_bind_eq_some done
    obtain ⟨moved, rfl, tracks⟩ := one stepped tracks
    exact ih later done tracks

/-- A group inside a group is opened, used and left again. -/
theorem group_leaves {name : String} {written : Option Nat} {inner : List Step} {depth : Nat}
    (fits : shape.fits (depth + 1) = true)
    (each : ∀ nested : GroupShape, nested.fits depth = true →
      Tracking (lengthCount * depth) nested fun view => steps inner (.group nested view)) :
    Leaves (lengthCount * (depth + 1)) shape fun view =>
      step (.group name written inner) (.group shape view) := by
  intro view record element after done
  simp only [step] at done
  cases found : (Element.group shape view).group? name with
  | none =>
    rw [found] at done
    cases done
    exact ⟨rfl, .refl _ _⟩
  | some nested =>
    rw [found] at done
    have deeper := (GroupShape.fits_succ fits).2 nested (List.mem_of_find?_eq_some found)
    have opening := nested.opening_bounded written (lengthCount * (depth + 1))
    obtain ⟨result, between, performed, done⟩ := run_bind_eq_some done
    rcases run_perform_eq_some performed with ⟨start, ran, rfl⟩ | ⟨cause, ran, rfl⟩
    · obtain ⟨_, _, limited, done⟩ := run_bind_eq_some done
      cases limited
      obtain ⟨_, _, kept, done⟩ := run_bind_eq_some done
      cases kept
      obtain ⟨last, ended, used, done⟩ := run_bind_eq_some done
      -- Inside, the limit keeps to one level less, and the blocks taken there make up for the
      -- level.
      obtain ⟨moved, rfl, inside⟩ := each nested deeper used (nested.tracks_of_opening deeper ran _)
      cases done
      exact ⟨rfl, (opening ran (by intro fault; cases fault)).trans inside.closed⟩
    · cases done
      exact ⟨rfl, opening ran (by intro fault; cases fault)⟩

/-- A step keeps to the limits of the group, and leaves it where it is unless it takes repetitions.
The induction is on the step, since a group inside the group has steps of its own. -/
theorem step_keeps (call : Step) : ∀ {depth : Nat} {shape : GroupShape}, call.isUse = true →
    shape.fits depth = true →
    Tracking (lengthCount * depth) shape (fun view => step call (.group shape view)) ∧
      (call.isCall = true → call.isNext = false →
        Leaves (lengthCount * depth) shape fun view => step call (.group shape view)) := by
  have wide {depth : Nat} {shape : GroupShape} (fits : shape.fits depth = true) :
      lengthCount ≤ lengthCount * depth := by
    obtain ⟨less, rfl⟩ := GroupShape.exists_of_fits fits
    exact Nat.le_mul_of_pos_right _ (Nat.succ_pos less)
  have both {slack : Nat} {shape : GroupShape} {work : GroupView → Session Element} {one two : Prop}
      (leaves : Leaves slack shape work) :
      Tracking slack shape work ∧ (one → two → Leaves slack shape work) :=
    ⟨leaves.tracking, fun _ _ => leaves⟩
  induction call using Step.induct with
  | ask queries =>
    intro depth shape plain _
    exact both (give_leaves fun view => Element.answer_bounded _ plain _)
  | setLimit limit =>
    intro depth shape uses
    cases uses
  | field name access =>
    intro depth shape _ fits
    exact both (give_leaves fun view => (Element.access_bounded _ name access).mono (wide fits))
  | bitSet name access =>
    intro depth shape _ fits
    exact both (give_leaves fun view => (Element.accessSet_bounded _ name access).mono (wide fits))
  | composite name accesses =>
    intro depth shape _ fits
    exact both (give_leaves fun view =>
      (Element.accessComposite_bounded _ name accesses).mono (wide fits))
  | next =>
    intro depth shape _ _
    refine ⟨next_tracking, fun _ other => ?_⟩
    cases other
  | group name written inner ih =>
    intro depth shape uses fits
    obtain ⟨less, rfl⟩ := GroupShape.exists_of_fits fits
    refine both (group_leaves fits fun nested deeper => steps_tracking fun call member => ?_)
    exact (ih call member (Step.allUse_eq_true.mp uses call member) deeper).1
  | forEach inner ih =>
    intro depth shape uses fits
    have each : Tracking (lengthCount * depth) shape fun view => steps inner (.group shape view) :=
      steps_tracking
        fun call member => (ih call member (Step.allUse_eq_true.mp uses call member) fits).1
    refine ⟨fun opened view record element after done tracks => ?_, fun single => ?_⟩
    · simp only [step] at done
      obtain ⟨last, middle, visited, done⟩ := run_bind_eq_some done
      obtain ⟨moved, rfl, tracks⟩ := forEachUpTo_tracking each _ visited tracks
      cases done
      exact ⟨moved, rfl, tracks⟩
    · cases single

/-- Calls that take no repetition leave the group where it is. -/
theorem steps_leave {depth : Nat} (fits : shape.fits depth = true) {calls : List Step}
    (each : ∀ call ∈ calls, call.isCall = true ∧ call.isNext = false) :
    Leaves (lengthCount * depth) shape fun view => steps calls (.group shape view) := by
  induction calls with
  | nil =>
    intro view record element after done
    cases done
    exact ⟨rfl, .refl _ _⟩
  | cons call rest ih =>
    obtain ⟨⟨single, other⟩, later⟩ := List.forall_mem_cons.mp each
    intro view record element after done
    obtain ⟨middle, between, stepped, done⟩ := run_bind_eq_some done
    obtain ⟨rfl, first⟩ :=
      (step_keeps call (Step.isUse_of_isCall single) fits).2 single other stepped
    obtain ⟨rfl, second⟩ := ih later done
    exact ⟨rfl, first.trans second⟩

/-- How far a group is after some calls: as many of them as take a repetition, as long as there is
one. -/
def Progresses (shape : GroupShape) (slack : Nat) (opened : Wire) (view : GroupView) (nexts : Nat)
    (element : Element) (wire : Wire) : Prop :=
  ∃ moved : GroupView, element = .group shape moved ∧ moved.Tracks slack opened wire ∧
    ∃ offset, moved = { view with taken := min (view.taken + nexts) view.count, offset }

theorem step_progresses {depth : Nat} (fits : shape.fits depth = true) {call : Step}
    (single : call.isCall = true) {opened : Wire} {view : GroupView} {element : Element}
    {record after : Record}
    (done : (step call (.group shape view)).run.run record = (some element, after))
    (tracks : view.Tracks (lengthCount * depth) opened record.wire) :
    Progresses shape (lengthCount * depth) opened view ([call].countP Step.isNext) element
      after.wire := by
  obtain ⟨tracking, leaves⟩ := step_keeps call (Step.isUse_of_isCall single) fits
  obtain ⟨moved, rfl, further⟩ := tracking done tracks
  refine ⟨moved, rfl, further, moved.offset, ?_⟩
  by_cases taking : call.isNext = true
  · cases call with
    | next =>
      have within := tracks.taken
      simp only [step_next] at done
      obtain ⟨result, middle, performed, done⟩ := run_bind_eq_some done
      rcases run_perform_next performed with ⟨more, rfl, _⟩ | ⟨none, rfl, _⟩
      · cases done
        rw [List.countP_singleton, if_pos taking, Nat.min_eq_left more]
        rfl
      · cases done
        have last : min (view.taken + [Step.next].countP Step.isNext) view.count = view.taken := by
          omega
        rw [last]
    | _ => cases taking
  · obtain ⟨same, _⟩ := leaves single (Bool.not_eq_true _ ▸ taking) done
    cases same
    rw [List.countP_singleton, if_neg taking, Nat.add_zero, Nat.min_eq_left tracks.taken]

/-- Calls on a group, one after another. -/
theorem steps_progress {depth : Nat} (fits : shape.fits depth = true) {calls : List Step}
    (each : ∀ call ∈ calls, call.isCall = true) {opened : Wire} {view : GroupView}
    {element : Element} {record after : Record}
    (done : (steps calls (.group shape view)).run.run record = (some element, after))
    (tracks : view.Tracks (lengthCount * depth) opened record.wire) :
    Progresses shape (lengthCount * depth) opened view (calls.countP Step.isNext) element
      after.wire := by
  induction calls generalizing view record with
  | nil =>
    cases done
    refine ⟨view, rfl, tracks, view.offset, ?_⟩
    rw [List.countP_nil, Nat.add_zero, Nat.min_eq_left tracks.taken]
  | cons call rest ih =>
    obtain ⟨first, later⟩ := List.forall_mem_cons.mp each
    obtain ⟨middle, between, stepped, done⟩ := run_bind_eq_some done
    obtain ⟨moved, rfl, tracks, offset, rfl⟩ := step_progresses fits first stepped tracks
    obtain ⟨last, rfl, tracks, offset, rfl⟩ := ih later done tracks
    refine ⟨_, rfl, tracks, offset, ?_⟩
    have split : (call :: rest).countP Step.isNext =
        [call].countP Step.isNext + rest.countP Step.isNext := by
      rw [← List.countP_append, List.singleton_append]
    have total :
        min (min (view.taken + [call].countP Step.isNext) view.count + rest.countP Step.isNext)
            view.count = min (view.taken + (call :: rest).countP Step.isNext) view.count := by
      omega
    rw [← total]

end Session

end Codec

end Sbe
