import Sbe.Demo.Order
import Sbe.Proofs.GroupSteps

/-!
**Going through groups.**

A group follows one protocol, whatever is done with its repetitions in between: the next repetition
is taken exactly while there is one, and work on all remaining repetitions is done on each of them,
in their order.

* `GroupView.Visits`, `GroupView.Covers`: work on the remaining repetitions;
* `GroupShape.MakesCalls`: work that comes down to calls on the current repetition;
* `GroupView.Follows`: the protocol;
* `Demo.group_follows_protocol`: the groups of cars, orders and service visits.
-/

namespace Sbe

namespace Codec

variable {α : Type}

/-! ### Work on the remaining repetitions -/

namespace GroupView

/-- Repetitions that are taken one after another, with work that is done on each: the position of
each and what its work gave. -/
inductive Visits (work : GroupView → Codec α) :
    GroupView → Wire → List (Int × α) → GroupView → Wire → Prop
  | nil (view : GroupView) (wire : Wire) : Visits work view wire [] view wire
  | cons {view moved last : GroupView} {wire start middle after : Wire} {value : α}
      {later : List (Int × α)} (taken : view.next.run wire = (.ok moved, start))
      (worked : (work moved).run start = (.ok value, middle))
      (rest : Visits work moved middle later last after) :
      Visits work view wire ((moved.index, value) :: later) last after

variable {work : GroupView → Codec α} {view last : GroupView} {wire after : Wire}
  {visited : List (Int × α)}

namespace Visits

theorem taken_eq (visits : Visits work view wire visited last after) :
    last.taken = view.taken + visited.length ∧ last.count = view.count := by
  induction visits with
  | nil view wire => exact ⟨rfl, rfl⟩
  | cons taken worked rest ih =>
    obtain ⟨rfl, rfl⟩ := run_next_eq_ok taken
    refine ⟨?_, ih.2⟩
    rw [ih.1, List.length_cons]
    show _ + 1 + _ = _
    omega

/-- The repetitions are visited in their order, and none of them is left out. -/
theorem indexes (visits : Visits work view wire visited last after) :
    visited.map Prod.fst = (List.range' view.taken visited.length).map Int.ofNat := by
  induction visits with
  | nil view wire => rfl
  | cons taken worked rest ih =>
    obtain ⟨rfl, rfl⟩ := run_next_eq_ok taken
    rw [List.map_cons, List.length_cons, List.range'_succ, List.map_cons, ih, index_after]
    rfl

theorem tracks {slack : Nat} {opened : Wire} (bounded : ∀ view, Bounded slack (work view))
    (visits : Visits work view wire visited last after) (tracks : view.Tracks slack opened wire) :
    last.Tracks slack opened after := by
  induction visits with
  | nil view wire => exact tracks
  | cons taken worked rest ih =>
    have more := taken_lt_of_run_next taken
    obtain ⟨rfl, rfl⟩ := run_next_eq_ok taken
    exact ih ((tracks.next more _).step (bounded _ worked (by intro fault; cases fault)))

end Visits

/-- Takes the next repetition and does some work on it. -/
def visit (work : GroupView → Codec α) (view : GroupView) : Codec (GroupView × α) := do
  let moved ← view.next
  let value ← work moved
  pure (moved, value)

theorem forEachUpTo_succ (work : GroupView → Codec α) {view : GroupView}
    (more : view.taken < view.count) (fuel : Nat) :
    view.forEachUpTo work (fuel + 1) = view.visit work >>= fun (moved, value) =>
      moved.forEachUpTo work fuel >>= fun values => pure (value :: values) := by
  rw [forEachUpTo, hasNext, decide_eq_true more, visit]
  simp only [if_true, bind_assoc, pure_bind]

/-- Going through repetitions: they are visited until none is left, or until the visit of one
fails. -/
theorem run_forEachUpTo (work : GroupView → Codec α) {view : GroupView} {fuel : Nat}
    (some : fuel ≤ view.count - view.taken) (wire : Wire) :
    ∃ visited last before, Visits work view wire visited last before ∧
      (visited.length = fuel ∧
          (view.forEachUpTo work fuel).run wire = (.ok (visited.map Prod.snd), before) ∨
        visited.length < fuel ∧ ∃ halt after,
          (view.forEachUpTo work fuel).run wire = (.error halt, after) ∧
          (last.visit work).run before = (.error halt, after)) := by
  induction fuel generalizing view wire with
  | zero => exact ⟨[], view, wire, .nil view wire, .inl ⟨rfl, rfl⟩⟩
  | succ fuel ih =>
    rw [forEachUpTo_succ work (by omega)]
    cases ran : (view.visit work).run wire with
    | mk outcome middle =>
      cases outcome with
      | error halt =>
        refine ⟨[], view, wire, .nil view wire, .inr ⟨Nat.succ_pos fuel, halt, middle, ?_, ran⟩⟩
        rw [run_bind, ran]
      | ok found =>
        obtain ⟨moved, start, taken, worked⟩ := run_bind_eq_ok ran
        obtain ⟨value, ended, worked, same⟩ := run_bind_eq_ok worked
        cases same
        rw [run_bind_of_ok ran]
        have fewer : fuel ≤ moved.count - moved.taken := by
          rw [(run_next_eq_ok taken).1]
          show fuel ≤ view.count - (view.taken + 1)
          omega
        obtain ⟨visited, last, before, visits, ended⟩ := ih fewer middle
        refine ⟨(moved.index, value) :: visited, last, before, .cons taken worked visits, ?_⟩
        rcases ended with ⟨length, ended⟩ | ⟨length, halt, after, ended, failed⟩
        · refine .inl ⟨congrArg Nat.succ length, ?_⟩
          rw [run_bind_of_ok ended]
          rfl
        · refine .inr ⟨Nat.succ_lt_succ length, halt, after, ?_, failed⟩
          rw [run_bind, ended]

/-- What comes of work on all remaining repetitions: either it was done on each of them, in their
order, or it was done up to one where it failed, and its failure is the outcome. -/
inductive Covers (work : GroupView → Codec α) (view : GroupView) (wire : Wire) (taken count : Nat) :
    Outcome CodecError (List α) × Wire → Prop
  | finished {visited : List (Int × α)} {last : GroupView} {after : Wire}
      (visits : Visits work view wire visited last after)
      (all : visited.map Prod.fst = (List.range' taken (count - taken)).map Int.ofNat) :
      Covers work view wire taken count (.ok (visited.map Prod.snd), after)
  | stopped {visited : List (Int × α)} {last moved : GroupView} {before start after : Wire}
      {halt : Halt CodecError} (visits : Visits work view wire visited last before)
      (some : visited.map Prod.fst = (List.range' taken visited.length).map Int.ofNat)
      (fewer : taken + visited.length < count)
      (next : last.next.run before = (.ok moved, start))
      (failed : (work moved).run start = (.error halt, after)) :
      Covers work view wire taken count (.error halt, after)

theorem forEach_covers {slack : Nat} {opened : Wire} (bounded : ∀ view, Bounded slack (work view))
    (near : slack ≤ reach) (addressable : opened.IsAddressable)
    (tracks : view.Tracks slack opened wire) :
    view.Covers work wire view.taken view.count ((view.forEach work).run wire) := by
  obtain ⟨visited, last, before, visits, ended⟩ := run_forEachUpTo work (Nat.le_refl _) wire
  rw [forEach]
  rcases ended with ⟨length, ended⟩ | ⟨length, halt, after, ended, failed⟩
  · rw [ended]
    exact .finished visits (length ▸ visits.indexes)
  · rw [ended]
    obtain ⟨taken, count⟩ := visits.taken_eq
    have more : last.taken < last.count := by omega
    -- The repetition itself could be taken, so it is the work on it that failed.
    have took := run_next more ((visits.tracks bounded tracks).small addressable near more)
    rw [visit, run_bind_of_ok took, run_bind] at failed
    refine .stopped visits visits.indexes (by omega) took ?_
    cases worked : (work (last.after before.cursor.limit)).run
        (before.advance last.blockLength) with
    | mk outcome middle =>
      rw [worked] at failed
      cases outcome with
      | ok value => cases failed
      | error cause =>
        cases failed
        rfl

/-- A visit that ends without a fault keeps to the blocks of the group and the work on them. -/
theorem visit_bounded {slack : Nat} {opened : Wire} (bounded : ∀ view, Bounded slack (work view))
    (tracks : view.Tracks slack opened wire) {outcome : Outcome CodecError (GroupView × α)}
    (ended : (view.visit work).run wire = (outcome, after)) (passed : outcome ≠ .error .fault) :
    opened.Bounded (slack + lengthCount) after := by
  have worked (moved : GroupView) :
      Bounded slack (work moved >>= fun value => (pure (moved, value) : Codec (GroupView × α))) :=
    (bounded moved).map _
  rw [visit, run_bind] at ended
  cases took : view.next.run wire with
  | mk result start =>
    rw [took] at ended
    rcases result with (cause | _) | moved
    · rw [(view.next_confined 0 0).refused took] at ended
      cases ended
      exact tracks.closed
    · cases ended
      exact absurd rfl passed
    · have more := taken_lt_of_run_next took
      obtain ⟨rfl, rfl⟩ := run_next_eq_ok took
      exact ((tracks.next more wire.cursor.limit).step (worked _ ended passed)).closed

end GroupView

theorem GroupShape.opening_none (shape : GroupShape) : shape.opening none = shape.openRead := rfl

/-- Reading a group as a whole keeps to its blocks and the work on them. -/
theorem GroupShape.readAll_bounded {shape : GroupShape} {depth slack : Nat}
    (fits : shape.fits depth = true) {work : GroupView → Codec α}
    (bounded : ∀ view, Bounded slack (work view)) :
    Bounded (slack + lengthCount) (shape.readAll work) := by
  intro wire outcome after ended passed
  have opening := shape.opening_bounded none (slack + lengthCount)
  rw [readAll, ← opening_none, run_bind] at ended
  cases opened : (shape.opening none).run wire with
  | mk result start =>
    rw [opened] at ended
    rcases result with (cause | _) | view
    · exact absurd opened (shape.openRead_firm _ _ _)
    · cases ended
      exact absurd rfl passed
    · refine (opening opened (by intro fault; cases fault)).trans ?_
      have tracks : view.Tracks slack start start := shape.tracks_of_opening fits opened slack
      obtain ⟨visited, last, before, visits, result⟩ :=
        GroupView.run_forEachUpTo work (Nat.le_refl _) start
      have further := visits.tracks bounded tracks
      change (view.forEachUpTo work (view.count - view.taken)).run start = _ at ended
      rcases result with ⟨_, done⟩ | ⟨_, halt, later, stopped, failed⟩
      · rw [done] at ended
        cases ended
        exact further.closed
      · rw [stopped] at ended
        cases ended
        refine GroupView.visit_bounded bounded further failed fun fault => passed ?_
        cases fault
        rfl

/-- Work on a repetition that comes down to calls, none of which takes the next repetition:
whichever way the work goes, there are calls that lead to the same wire. -/
def GroupShape.MakesCalls (shape : GroupShape) (work : GroupView → Codec α) : Prop :=
  ∀ ⦃view wire outcome after⦄, (work view).run wire = (outcome, after) → outcome ≠ .error .fault →
    ∃ (calls : List Step) (element : Element) (record : Record),
      (∀ call ∈ calls, call.isCall = true ∧ call.isNext = false) ∧
      (Session.steps calls (.group shape view)).run.run { wire } = (some element, record) ∧
      record.wire = after

theorem GroupShape.MakesCalls.bounded {shape : GroupShape} {depth : Nat}
    {work : GroupView → Codec α} (makes : shape.MakesCalls work) (fits : shape.fits depth = true)
    (view : GroupView) : Bounded (lengthCount * depth) (work view) := by
  intro wire outcome after ended passed
  obtain ⟨calls, element, record, each, ran, rfl⟩ := makes ended passed
  exact (Session.steps_leave fits each ran).2

/-- An access to a field is a call. -/
theorem GroupShape.makesCalls_access (shape : GroupShape) (name : String) (access : FieldAccess) :
    shape.MakesCalls fun view => (Element.group shape view).access name access := by
  intro view wire outcome after ended passed
  have single : ∀ call ∈ [Step.field name access], call.isCall = true ∧ call.isNext = false := by
    simp [Step.isCall, Step.isUse, Step.isNext]
  have step {record : Record}
      (gave : (Session.give ((Element.group shape view).access name access)).run.run
      { wire } = (some (), record)) :
      (Session.steps [.field name access] (.group shape view)).run.run { wire } =
        (some (.group shape view), record) := by
    rw [Session.steps, Session.step, bind_assoc, Session.run_bind_of_some gave]
    rfl
  rcases outcome with (cause | _) | datum
  · exact ⟨_, _, _, single, step (Session.run_give_refused ended), rfl⟩
  · exact absurd rfl passed
  · exact ⟨_, _, _, single, step (Session.run_give_ok ended), rfl⟩

/-- What can be relied on while a group is gone through: where `taken` of its `count` repetitions
have been taken, the next one is taken exactly if there is one, starts at the limit, and moves the
limit past its block; otherwise neither the group nor the wire changes. Work on the remaining
repetitions is done on each of them. -/
structure GroupView.Follows (name : String) (taken count blockLength : Nat) (view : GroupView)
    (wire : Wire) : Prop where
  index : view.index = (taken : Int) - 1
  hasNext : view.hasNext = true ↔ taken < count
  moves : taken < count → ∃ moved,
    advance.run (view, wire) = (.ok (), moved, wire.advance blockLength) ∧
      moved.index = taken ∧ moved.offset = wire.cursor.limit
  exhausted : count ≤ taken →
    advance.run (view, wire) = (.error (.refused (.groupExhausted name count)), view, wire)
  covers : ∀ (α : Type) (work : GroupView → Codec α), (∀ view, Bounded reach (work view)) →
    view.Covers work wire taken count ((view.forEach work).run wire)

theorem GroupView.Tracks.follows {slack : Nat} {opened wire : Wire} {view : GroupView}
    (tracks : view.Tracks slack opened wire) (near : slack ≤ reach)
    (addressable : opened.IsAddressable) :
    view.Follows view.name view.taken view.count view.blockLength wire where
  index := rfl
  hasNext := decide_eq_true_iff
  moves more := by
    refine ⟨view.after wire.cursor.limit, ?_, index_after _ _, rfl⟩
    rw [run_advance_of_next, run_next more (tracks.small addressable near more)]
  exhausted none := by rw [run_advance_of_next, run_next_of_exhausted none wire]
  covers _ _ bounded := forEach_covers bounded (Nat.le_refl _) addressable (tracks.mono near)

end Codec

namespace Demo

open Sbe.Codec

/-- The groups of cars, orders and service visits, with the group inside a group. -/
def groupShapes : List GroupShape :=
  [FuelFigure.shape, PerformanceFigure.shape, Acceleration.shape, Order.fills, Service.stops]

theorem groupShapes_fit : ∀ shape ∈ groupShapes, shape.fits 2 = true := by
  decide

/-- A group of a demo message is open for reading or writing, and calls have been made on it in any
order. Then as many repetitions have been taken as calls asked for one, at most all of them, and
from there the group follows its protocol, also for work on the remaining repetitions that makes
calls of its own. Only calls for the next repetition move it. -/
theorem group_follows_protocol {shape : GroupShape} (known : shape ∈ groupShapes)
    {written : Option Nat} {wire : Wire} (addressable : wire.IsAddressable) {view : GroupView}
    {start : Record} (opened : (shape.opening written).run wire = (.ok view, start.wire))
    {calls : List Step} (each : calls.all Step.isCall = true) {element : Element} {final : Record}
    (ran : (Session.steps calls (.group shape view)).run.run start = (some element, final)) :
    ∃ moved : GroupView, element = .group shape moved ∧
      moved.Follows shape.name
        (min (calls.countP Step.isNext) (shape.actingCount written wire))
        (shape.actingCount written wire) (shape.actingBlockLength written wire) final.wire ∧
      (∀ (α : Type) (work : GroupView → Codec α), shape.MakesCalls work →
        moved.Covers work final.wire
          (min (calls.countP Step.isNext) (shape.actingCount written wire))
          (shape.actingCount written wire) ((moved.forEach work).run final.wire)) ∧
      ∀ call : Step, call.isCall = true → call.isNext = false → ∀ later after,
        (Session.step call (.group shape moved)).run.run final = (some later, after) →
        later = .group shape moved := by
  have fits := groupShapes_fit shape known
  have tracks := shape.tracks_of_opening fits opened (lengthCount * 2)
  obtain ⟨dimensions, capacity, _⟩ := GroupShape.opened_of_opening opened
  have room : start.wire.IsAddressable := by
    rw [Wire.IsAddressable, capacity]
    exact addressable
  have near : lengthCount * 2 ≤ reach := by decide
  obtain ⟨moved, rfl, tracks, offset, same⟩ :=
    Session.steps_progress fits (List.all_eq_true.mp each) ran tracks
  have follows := tracks.follows near room
  have taken : moved.taken = min (calls.countP Step.isNext) (shape.actingCount written wire) := by
    rw [same, dimensions, Nat.zero_add]
  have name : moved.name = shape.name := by rw [same, dimensions]
  have count : moved.count = shape.actingCount written wire := by rw [same, dimensions]
  have blockLength : moved.blockLength = shape.actingBlockLength written wire := by
    rw [same, dimensions]
  rw [name, taken, count, blockLength] at follows
  refine ⟨moved, rfl, follows, fun α work makes => follows.covers α work fun view => ?_,
    fun call single other later after done => ?_⟩
  · exact (makes.bounded fits view).mono near
  · exact ((Session.step_keeps call (Step.isUse_of_isCall single) fits).2 single other done).1

/-- Reading a figure leaves the limit in reach. -/
theorem PerformanceFigure.read_bounded (view : GroupView) :
    Bounded reach (PerformanceFigure.read view) := by
  have acceleration (view : GroupView) : Bounded 0 (Acceleration.read view) :=
    ((Acceleration.mphField.read_quiet _).bind fun _ =>
      (Acceleration.secondsField.read_quiet _).map _).bounded 0
  have fits : Acceleration.shape.fits 2 = true := groupShapes_fit _ (by simp [groupShapes])
  have octane := (octaneRatingField.read_quiet view.offset).bounded reach
  rw [PerformanceFigure.read]
  exact octane.bind fun _ => ((GroupShape.readAll_bounded fits acceleration).mono (by decide)).map _

/-- Two performance figures, the first with one acceleration. -/
def figures : Wire where
  buffer := .ofList [1, 0, 2, 0, 95, 6, 0, 1, 0, 30, 0, 0, 0, 128, 64, 99, 6, 0, 0, 0]
  cursor := ⟨0, 1⟩

/-- Calls on the first of two performance figures and its acceleration. -/
def figureCalls : List Step :=
  [.ask [.hasNext, .index], .next, .field "octaneRating" .read,
    .group "acceleration" none [.next, .field "mph" .read, .next]]

/-- The figures when they have been opened. -/
def figureView : GroupView := { name := "performanceFigures", blockLength := 1, count := 2 }

/-- The figures after these calls. -/
def figureRun : Option Element × Record :=
  (Session.steps figureCalls (.group PerformanceFigure.shape figureView)).run.run
    { wire := figures.advance 4 }

/-- The octane rating of a figure. -/
def octaneRating (view : GroupView) : Codec Datum :=
  (Element.group PerformanceFigure.shape view).access "octaneRating" .read

theorem second_figure_follows : ∃ moved : GroupView,
    figureRun.1 = some (.group PerformanceFigure.shape moved) ∧
    moved.Follows "performanceFigures" 1 2 1 figureRun.2.wire ∧
    moved.Covers PerformanceFigure.read figureRun.2.wire 1 2
      ((moved.forEach PerformanceFigure.read).run figureRun.2.wire) ∧
    moved.Covers octaneRating figureRun.2.wire 1 2
      ((moved.forEach octaneRating).run figureRun.2.wire) := by
  have known : PerformanceFigure.shape ∈ groupShapes := by simp [groupShapes]
  have addressable : figures.IsAddressable := by
    unfold Wire.IsAddressable
    decide
  have opened : (PerformanceFigure.shape.opening none).run figures =
      (.ok figureView, (Record.mk (figures.advance 4) []).wire) := rfl
  have each : figureCalls.all Step.isCall = true := by decide
  have completes : figureRun.1.isSome = true := by decide +kernel
  obtain ⟨element, found⟩ := Option.isSome_iff_exists.mp completes
  have ran : figureRun = (some element, figureRun.2) := by
    rw [← found]
  obtain ⟨moved, rfl, follows, covers, _⟩ :=
    group_follows_protocol known addressable opened each ran
  have ratings := covers Datum octaneRating
    (PerformanceFigure.shape.makesCalls_access "octaneRating" .read)
  have count : PerformanceFigure.shape.actingCount none figures = 2 := by decide
  have blockLength : PerformanceFigure.shape.actingBlockLength none figures = 1 := by decide
  have nexts : figureCalls.countP Step.isNext = 1 := by decide
  rw [count, nexts] at ratings
  rw [count, blockLength, nexts] at follows
  exact ⟨moved, found, follows, follows.covers _ _ PerformanceFigure.read_bounded, ratings⟩

end Demo

end Sbe
