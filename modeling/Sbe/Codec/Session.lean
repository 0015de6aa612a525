import Sbe.Codec.Access

/-!
**Sessions.**

A session opens a message and takes steps on it. It keeps an entry for each, with the limit after
the step. A refusal is an entry like any other, and the session goes on; a fault ends it, and what
was written before the fault stays.
-/

namespace Sbe.Codec

/-- A step of a session. -/
inductive Step where
  | ask (queries : List Query)
  | setLimit (limit : Nat)
  | field (name : String) (access : FieldAccess)
  | bitSet (name : String) (access : SetAccess)
  | composite (name : String) (accesses : List CompositeAccess)
  | next
  | group (name : String) (written : Option Nat) (steps : List Step)
  | forEach (steps : List Step)

/-- What a session keeps of a step. -/
inductive Entry where
  | opened (number limit : Nat)
  | gave (datum : Datum) (limit : Nat)
  | finished (limit : Nat)
  | refused (cause : CodecError) (limit : Nat)
  | fault

/-- The wire of a session, and its entries, the last first. -/
structure Record where
  wire : Wire
  entries : List Entry := []

/-- Work in a session; nothing comes of it once a fault has ended the session. -/
abbrev Session (α : Type) := OptionT (StateM Record) α

namespace Session

/-- Keeps an entry. -/
def keep (entry : Entry) : Session Unit :=
  modify fun record => { record with entries := entry :: record.entries }

/-- The current limit. -/
def limit : Session Nat := do pure (← get).wire.cursor.limit

/-- What comes of work: its value, or nothing when it was refused, and an entry that says so. -/
def settle {α : Type} : Outcome CodecError α → Session (Option α)
  | .ok value => pure (some value)
  | .error (.refused cause) => do
    keep (.refused cause (← limit))
    pure none
  | .error .fault => do
    keep .fault
    failure

/-- Does work on the wire, and keeps an entry when it is refused. -/
def perform {α : Type} (work : Codec α) : Session (Option α) := do
  let record ← get
  let (outcome, wire) := work.run record.wire
  set { record with wire }
  settle outcome

/-- Does work on a group, and keeps an entry when it is refused; gives the group as it is then. -/
def performOn {α : Type} (view : GroupView) (work : GroupCodec α) :
    Session (Option α × GroupView) := do
  let record ← get
  let (outcome, view, wire) := work.run (view, record.wire)
  set { record with wire }
  pure (← settle outcome, view)

/-- Does work on the wire and keeps what it gives. -/
def give (work : Codec Datum) : Session Unit := do
  match ← perform work with
  | some datum => keep (.gave datum (← limit))
  | none => pure ()

/-- Takes up to `fuel` further repetitions of a group and does some work on each. -/
def forEachUpTo (work : Element → Session Element) (shape : GroupShape) :
    Nat → Element → Session Element
  | fuel + 1, .group _ view => do
    if view.hasNext then
      match ← performOn view GroupView.advance with
      | (some _, view) => forEachUpTo work shape fuel (← work (.group shape view))
      | (none, view) => pure (.group shape view)
    else pure (.group shape view)
  | _, element => pure element

mutual

/-- Takes a step; gives the element as it is then. -/
def step : Step → Element → Session Element
  | .ask queries, element => do
    give (element.answer queries)
    pure element
  | .setLimit limit, element => do
    give (silent (setLimit limit))
    pure element
  | .field name access, element => do
    give (element.access name access)
    pure element
  | .bitSet name access, element => do
    give (element.accessSet name access)
    pure element
  | .composite name accesses, element => do
    give (element.accessComposite name accesses)
    pure element
  | .next, .group shape view => do
    match ← performOn view GroupView.advance with
    | (some _, view) =>
      keep (.gave .nothing (← limit))
      pure (.group shape view)
    | (none, view) => pure (.group shape view)
  | .next, element => pure element
  | .group name written inner, element => do
    match element.group? name with
    | none => pure element
    | some shape =>
      let opening := (written.map shape.openWrite).getD shape.openRead
      match ← perform opening with
      | none => pure element
      | some view =>
        keep (.opened view.count (← limit))
        let _ ← steps inner (.group shape view)
        keep (.finished (← limit))
        pure element
  | .forEach inner, .group shape view => do
    let element ← forEachUpTo (fun element => steps inner element) shape (view.count - view.taken)
      (.group shape view)
    keep (.finished (← limit))
    pure element
  | .forEach _, element => pure element

/-- Takes steps, one after another. -/
def steps : List Step → Element → Session Element
  | [], element => pure element
  | first :: rest, element => do
    let element ← step first element
    steps rest element

end

/-- Opens a message and takes steps on it. -/
def message (opening : Codec MessageView) (taken : List Step) : Session Unit := do
  match ← perform opening with
  | none => pure ()
  | some view =>
    keep (.opened view.offset (← limit))
    let _ ← steps taken (.message view)
    pure ()

/-- The entries of a session on a message, in their order, and the wire at its end. -/
def entries (wire : Wire) (opening : Codec MessageView) (taken : List Step) : List Entry × Wire :=
  let record := ((message opening taken).run.run { wire }).2
  (record.entries.reverse, record.wire)

end Session

end Sbe.Codec
