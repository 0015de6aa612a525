import Sbe.Codec.Wire

/-!
**Rendering.**

What stands on a wire is written as text to a sink, one piece after another. A sink can refuse a
piece. Then the rendering ends with an error that says nothing more, as it does where what it reads
is refused.
-/

namespace Sbe.Codec

/-- Where text goes: whether it takes a piece of text, and what becomes of it. -/
structure Sink (σ : Type) where
  write : String → σ → Bool × σ

/-- A text takes every piece at its end. -/
def Sink.text : Sink String where
  write piece text := (true, text ++ piece)

/-- Work on a wire that writes to a sink. What it has done to either stays when it ends in an error
or a fault. -/
abbrev Render (σ α : Type) := ExceptT (Halt Unit) (StateM (Wire × σ)) α

namespace Render

variable {σ α : Type}

/-- Writes a piece of text. -/
def write (sink : Sink σ) (piece : String) : Render σ Unit := fun (wire, out) =>
  let (taken, out) := sink.write piece out
  (if taken then .ok () else .error (.refused ()), wire, out)

/-- Reads from the wire. -/
def read (work : Codec α) : Render σ α := fun (wire, out) =>
  match work.run wire with
  | (.ok value, after) => (.ok value, after, out)
  | (.error (.refused _), after) => (.error (.refused ()), after, out)
  | (.error .fault, after) => (.error .fault, after, out)

/-- Writes entries, with a mark between them. -/
def separated (sink : Sink σ) (mark : String) : List (Render σ Unit) → Render σ Unit
  | [] => pure ()
  | [entry] => entry
  | entry :: next :: rest => do
    entry
    write sink mark
    separated sink mark (next :: rest)

/-- Puts the limit back where it was before some work, unless that ends in a fault. -/
def restoringLimit (work : Render σ Unit) : Render σ Unit := fun (wire, out) =>
  match work.run (wire, out) with
  | (.error .fault, state) => (.error .fault, state)
  | (outcome, after, out) =>
    (outcome, { after with cursor := { after.cursor with limit := wire.cursor.limit } }, out)

/-- What work writes to a text, and whether it comes to its end. -/
def shown (work : Render String Unit) : Codec (Bool × String) := fun wire =>
  match work.run (wire, "") with
  | (.ok (), after, out) => (.ok (true, out), after)
  | (.error (.refused ()), after, out) => (.ok (false, out), after)
  | (.error .fault, after, _) => (.error .fault, after)

/-- The text that work writes; it is a fault to end early. -/
def toText (work : Render String Unit) : Codec String := do
  match ← work.shown with
  | (true, text) => pure text
  | (false, _) => fault

end Render

end Sbe.Codec
