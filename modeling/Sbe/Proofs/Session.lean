import Sbe.Codec.Session
import Sbe.Proofs.Wire

/-!
**How sessions go on.**

A session goes on after a value and after a refusal, with the wire as the work has left it.

* `run_bind_of_some`, `run_bind_eq_some`: one piece of a session after another;
* `run_perform_ok`, `run_perform_refused`, `run_perform_cases`: work on the wire;
* `performOn_advance`, `step_next`, `forEachUpTo_succ`: repetitions of a group;
* `run_forEach`, `run_group`: the steps that have steps of their own.
-/

namespace Sbe.Codec.Session

variable {α β : Type}

/-- Whether a session on a message goes on to its end, with no fault. -/
def completes (wire : Wire) (opening : Codec MessageView) (taken : List Step) : Bool :=
  ((message opening taken).run.run { wire }).1.isSome

theorem run_bind_of_some {first : Session α} {next : α → Session β} {record after : Record}
    {value : α} (done : first.run.run record = (some value, after)) :
    (first >>= next).run.run record = (next value).run.run after := by
  rw [OptionT.run_bind, Option.elimM, StateT.run_bind, done]
  rfl

theorem run_bind_of_none {first : Session α} {next : α → Session β} {record after : Record}
    (done : first.run.run record = (none, after)) :
    (first >>= next).run.run record = (none, after) := by
  rw [OptionT.run_bind, Option.elimM, StateT.run_bind, done]
  rfl

theorem run_bind_eq_some {first : Session α} {next : α → Session β} {record after : Record}
    {result : β} (done : (first >>= next).run.run record = (some result, after)) :
    ∃ value middle, first.run.run record = (some value, middle) ∧
      (next value).run.run middle = (some result, after) := by
  cases ended : first.run.run record with
  | mk found middle =>
    rw [OptionT.run_bind, Option.elimM, StateT.run_bind, ended] at done
    cases found with
    | none => cases done
    | some value => exact ⟨value, middle, rfl, done⟩

theorem run_keep (entry : Entry) (record : Record) :
    (keep entry).run.run record = (some (), { record with entries := entry :: record.entries }) :=
  rfl

theorem run_limit (record : Record) :
    limit.run.run record = (some record.wire.cursor.limit, record) := rfl

theorem run_perform {work : Codec α} {record : Record} {outcome : Outcome CodecError α}
    {wire : Wire} (done : work.run record.wire = (outcome, wire)) :
    (perform work).run.run record = (settle outcome).run.run { record with wire } := by
  have got : (get : Session Record).run.run record = (some record, record) := rfl
  rw [perform, run_bind_of_some got, done]
  rfl

theorem run_perform_ok {work : Codec α} {record : Record} {value : α} {wire : Wire}
    (done : work.run record.wire = (.ok value, wire)) :
    (perform work).run.run record = (some (some value), { record with wire }) :=
  run_perform done

theorem run_perform_refused {work : Codec α} {record : Record} {cause : CodecError} {wire : Wire}
    (refused : work.run record.wire = (.error (.refused cause), wire)) :
    (perform work).run.run record =
      (some none, ⟨wire, .refused cause wire.cursor.limit :: record.entries⟩) :=
  run_perform refused

/-- Work that a session goes on after was done or refused; a refusal leaves an entry. -/
theorem run_perform_cases {work : Codec α} {record after : Record} {result : Option α}
    (done : (perform work).run.run record = (some result, after)) :
    (∃ value wire, work.run record.wire = (.ok value, wire) ∧ result = some value ∧
        after = { record with wire }) ∨
      ∃ cause wire, work.run record.wire = (.error (.refused cause), wire) ∧ result = none ∧
        after = ⟨wire, .refused cause wire.cursor.limit :: record.entries⟩ := by
  cases ended : work.run record.wire with
  | mk outcome wire =>
    rw [run_perform ended] at done
    cases outcome with
    | ok value =>
      cases done
      exact .inl ⟨value, wire, rfl, rfl, rfl⟩
    | error halt =>
      cases halt with
      | refused cause =>
        cases done
        exact .inr ⟨cause, wire, rfl, rfl, rfl⟩
      | fault => cases done

theorem run_perform_eq_some {work : Codec α} {record after : Record} {result : Option α}
    (done : (perform work).run.run record = (some result, after)) :
    (∃ value, work.run record.wire = (.ok value, after.wire) ∧ result = some value) ∨
      ∃ cause, work.run record.wire = (.error (.refused cause), after.wire) ∧ result = none := by
  rcases run_perform_cases done with ⟨value, _, ran, same, rfl⟩ | ⟨cause, _, ran, same, rfl⟩
  · exact .inl ⟨value, ran, same⟩
  · exact .inr ⟨cause, ran, same⟩

theorem run_performOn {view moved : GroupView} {work : GroupCodec α} {record : Record}
    {outcome : Outcome CodecError α} {wire : Wire}
    (done : work.run (view, record.wire) = (outcome, moved, wire)) :
    (performOn view work).run.run record =
      (settle outcome >>= fun value => pure (value, moved)).run.run { record with wire } := by
  have got : (get : Session Record).run.run record = (some record, record) := rfl
  rw [performOn, run_bind_of_some got, done]
  rfl

/-- A group takes its next repetition in a session, and stays where it is when that is refused. -/
theorem performOn_advance (view : GroupView) :
    performOn view GroupView.advance = (do
      match ← perform view.next with
      | some moved => pure (some (), moved)
      | none => pure (none, view)) := by
  refine OptionT.ext (StateT.ext fun record => ?_)
  have ran := view.run_advance_of_next record.wire
  cases ended : view.next.run record.wire with
  | mk outcome wire =>
    rw [ended] at ran
    rw [run_performOn ran]
    cases outcome with
    | ok moved =>
      rw [run_bind_of_some (run_perform_ok ended)]
      rfl
    | error halt =>
      cases halt with
      | refused cause =>
        rw [run_bind_of_some (run_perform_refused ended)]
        rfl
      | fault =>
        rw [run_bind_of_none (run_perform ended)]
        rfl

/-- A step to the next repetition of a group. -/
theorem step_next (shape : GroupShape) (view : GroupView) :
    step .next (.group shape view) = (do
      match ← perform view.next with
      | some moved =>
        keep (.gave .nothing (← limit))
        pure (.group shape moved)
      | none => pure (.group shape view)) := by
  rw [step, performOn_advance, bind_assoc]
  refine bind_congr fun result => ?_
  cases result <;> rfl

/-- Going through repetitions: the next one, and the ones after it. -/
theorem forEachUpTo_succ (work : Element → Session Element) (shape held : GroupShape) (fuel : Nat)
    (view : GroupView) :
    forEachUpTo work shape (fuel + 1) (.group held view) = (do
      if view.hasNext then
        match ← perform view.next with
        | some moved => forEachUpTo work shape fuel (← work (.group shape moved))
        | none => pure (.group shape view)
      else pure (.group shape view)) := by
  rw [forEachUpTo, performOn_advance, bind_assoc]
  split
  · refine bind_congr fun result => ?_
    cases result <;> rfl
  · rfl

theorem run_give_eq_some {work : Codec Datum} {record after : Record} {done : Unit}
    (gave : (give work).run.run record = (some done, after)) :
    ∃ outcome, work.run record.wire = (outcome, after.wire) ∧ outcome ≠ .error .fault := by
  obtain ⟨result, middle, ended, kept⟩ := run_bind_eq_some gave
  rcases run_perform_eq_some ended with ⟨value, ran, rfl⟩ | ⟨cause, ran, rfl⟩
  · cases kept
    refine ⟨.ok value, ran, ?_⟩
    intro fault
    cases fault
  · cases kept
    refine ⟨.error (.refused cause), ran, ?_⟩
    intro fault
    cases fault

theorem steps_append (first second : List Step) (element : Element) :
    steps (first ++ second) element = steps first element >>= steps second := by
  induction first generalizing element with
  | nil => rw [List.nil_append, steps, pure_bind]
  | cons step rest ih =>
    rw [List.cons_append, steps, steps, bind_assoc]
    simp only [ih]

theorem run_give_ok {work : Codec Datum} {record : Record} {datum : Datum} {wire : Wire}
    (done : work.run record.wire = (.ok datum, wire)) :
    (give work).run.run record =
      (some (), ⟨wire, .gave datum wire.cursor.limit :: record.entries⟩) := by
  rw [give, run_bind_of_some (run_perform_ok done)]
  rfl

theorem run_give_refused {work : Codec Datum} {record : Record} {cause : CodecError} {wire : Wire}
    (refused : work.run record.wire = (.error (.refused cause), wire)) :
    (give work).run.run record =
      (some (), ⟨wire, .refused cause wire.cursor.limit :: record.entries⟩) := by
  rw [give, run_bind_of_some (run_perform_refused refused)]
  rfl

/-- Going through the repetitions of a group is an entry of its own. -/
theorem run_forEach {inner : List Step} {shape : GroupShape} {view : GroupView}
    {record after : Record} {last : Element}
    (ran : (forEachUpTo (fun element => steps inner element) shape (view.count - view.taken)
        (.group shape view)).run.run record = (some last, after)) :
    (steps [.forEach inner] (.group shape view)).run.run record =
      (some last, ⟨after.wire, .finished after.wire.cursor.limit :: after.entries⟩) := by
  rw [steps, step, bind_assoc, run_bind_of_some ran]
  rfl

/-- A group is opened, its steps are taken, and it is finished. -/
theorem run_group {element last : Element} {name : String} {shape : GroupShape} {view : GroupView}
    {inner : List Step} {record after : Record} {wire : Wire}
    (found : element.group? name = some shape)
    (opened : shape.openRead.run record.wire = (.ok view, wire))
    (ran : (steps inner (.group shape view)).run.run
      ⟨wire, .opened view.count wire.cursor.limit :: record.entries⟩ = (some last, after)) :
    (steps [.group name none inner] element).run.run record =
      (some element, ⟨after.wire, .finished after.wire.cursor.limit :: after.entries⟩) := by
  rw [steps, step, found]
  show ((perform shape.openRead >>= _) >>= _).run.run record = _
  rw [bind_assoc, run_bind_of_some (run_perform_ok opened)]
  simp only [bind_assoc]
  rw [run_bind_of_some (run_limit _), run_bind_of_some (run_keep _ _), run_bind_of_some ran]
  rfl

end Sbe.Codec.Session
