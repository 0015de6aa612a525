import Mathlib.Data.List.Perm.Basic
import Sbe.Proofs.Purposes
import Sbe.Token.Build

/-!
**Runs follow their plans, and streams get their units separately.**

A run takes the purposes of a schema in order and writes the unit of each, up to the first that has
none. What is written for a stream depends on that stream and on the header, the id and the version
of the schema, so streams can be generated in any order or company.

* `Written`: units written for purposes, in order, with the texts they have on their own;
* `Schema.generate_follows_plan`: what a run has written when it ends, early or not;
* `run_append`, `units_flatMap`: a run for several parts is the runs for each of them, one after the
  other;
* `ofType_congr`, `ofMessage_congr`: what the steps for a stream take from the schema around it;
* `Schema.generate_streams_separately`: the units of a stream in two schemas, and of two orders of
  one schema.
-/

namespace Sbe

open Source (Code Side)

/-! ### Runs and their plans -/

namespace Plan

/-- One unit for each purpose, in order, under its name and with the text that it has on its own. -/
def Written (settings : Settings) (schema : Schema) : List Purpose → List SourceUnit → Prop :=
  List.Forall₂ fun purpose unit => unit.name = purpose.name ∧
    ∃ code, purpose.code settings schema = .ok code ∧ unit.code = code.text

/-- A run that ends early has written the units before the first that has no code. -/
theorem exists_written_of_ending {settings : Settings} {schema : Schema} {purposes : List Purpose}
    {halt : Halt SchemaError}
    (ended : (run (purposes.map (Purpose.step settings schema))).ending = some halt) :
    ∃ before purpose after, purposes = before ++ purpose :: after ∧
      Written settings schema before (run (purposes.map (Purpose.step settings schema))).units ∧
      purpose.code settings schema = .error halt := by
  induction purposes with
  | nil => cases ended
  | cons purpose rest ih =>
    rw [List.map_cons, run_cons] at ended ⊢
    cases emitted : purpose.code settings schema with
    | error other =>
      rw [emitted] at ended
      cases ended
      exact ⟨[], purpose, rest, rfl, .nil, emitted⟩
    | ok code =>
      rw [emitted] at ended
      obtain ⟨before, failed, after, rfl, written, refused⟩ := ih ended
      exact ⟨purpose :: before, failed, after, rfl, .cons ⟨rfl, code, emitted, rfl⟩ written,
        refused⟩

end Plan

namespace Schema

open Plan

/-- **A run follows its plan.** A run to its end has written the unit of every purpose of the
schema, in order, and counts them. A run that fails has written those before the first purpose that
fails, with the texts they have on their own, and fails as that purpose does. -/
theorem generate_follows_plan (schema : Schema) (settings : Settings) :
    match (schema.generate settings).count with
    | .ok number => Written settings schema schema.purposes (schema.generate settings).units ∧
        number = schema.purposes.length
    | .error halt => ∃ before purpose after, schema.purposes = before ++ purpose :: after ∧
        Written settings schema before (schema.generate settings).units ∧
        purpose.code settings schema = .error halt := by
  rw [generate, ofSchema_eq, GenerationRun.count]
  cases ended : (run (schema.purposes.map (Purpose.step settings schema))).ending with
  | none =>
    have written := forall₂_run ended
    exact ⟨written, (written_run _).trans written.length_eq.symm⟩
  | some halt => exact exists_written_of_ending ended

end Schema

/-! ### Runs for several parts -/

namespace Plan

/-- After steps to their end a run goes on as one for the other steps alone, after a failure it does
not go on. -/
theorem run_append (steps others : List PlanStep) :
    run (steps ++ others) =
      match (run steps).ending with
      | none =>
        ⟨(run steps).units ++ (run others).units, (run steps).written + (run others).written,
          (run others).ending⟩
      | some halt => ⟨(run steps).units, (run steps).written, some halt⟩ := by
  induction steps with
  | nil =>
    change _ = GenerationRun.mk _ (0 + _) _
    rw [Nat.zero_add]
    rfl
  | cons step rest ih =>
    cases step with
    | stop cause => rfl
    | emit name code =>
      cases code with
      | error halt => rfl
      | ok code =>
        rw [List.cons_append, run, run]
        dsimp only
        rw [ih]
        cases (run rest).ending with
        | none =>
          dsimp only
          rw [Nat.add_right_comm]
          rfl
        | some halt => rfl

/-- A run comes to its end exactly when the runs for its two parts do. -/
theorem ending_append {steps others : List PlanStep} :
    (run (steps ++ others)).ending = none ↔
    (run steps).ending = none ∧ (run others).ending = none := by
  rw [run_append]
  cases (run steps).ending with
  | none => exact (and_iff_right rfl).symm
  | some halt => simp

theorem units_append {steps others : List PlanStep} (ended : (run steps).ending = none) :
    (run (steps ++ others)).units = (run steps).units ++ (run others).units := by
  rw [run_append, ended]

/-- A run comes to its end exactly when the run for each item does. -/
theorem ending_flatMap {α : Type} {steps : α → List PlanStep} {items : List α} :
    (run (items.flatMap steps)).ending = none ↔
    ∀ item ∈ items, (run (steps item)).ending = none := by
  induction items with
  | nil => exact ⟨fun _ => List.forall_mem_nil _, fun _ => rfl⟩
  | cons item rest ih => rw [List.flatMap_cons, ending_append, ih, List.forall_mem_cons]

/-- A run to its end writes what the runs for each item write. -/
theorem units_flatMap {α : Type} {steps : α → List PlanStep} {items : List α}
    (ended : ∀ item ∈ items, (run (steps item)).ending = none) :
    (run (items.flatMap steps)).units = items.flatMap fun item => (run (steps item)).units := by
  induction items with
  | nil => rfl
  | cons item rest ih =>
    obtain ⟨first, later⟩ := List.forall_mem_cons.mp ended
    rw [List.flatMap_cons, units_append first, ih later, List.flatMap_cons]

end Plan

/-! ### What the units of a stream depend on -/

/-- Two schemas with one header, id and version. -/
structure Schema.SharesFrame (one two : Schema) : Prop where
  header : one.header = two.header
  id : one.id = two.id
  version : one.version = two.version

namespace Source

variable {one two : Schema} (shared : one.SharesFrame two)

include shared

theorem headerPrimitive_congr (field : HeaderField) :
    one.headerPrimitive field = two.headerPrimitive field := by
  rw [Schema.headerPrimitive, Schema.headerPrimitive, Schema.headerField, Schema.headerField,
    shared.header]

theorem schemaConstants_congr : schemaConstants one = schemaConstants two := by
  simp only [schemaConstants, headerPrimitive_congr shared, shared.id, shared.version]

theorem headerTypes_congr : headerTypes one = headerTypes two := by
  simp only [headerTypes, headerPrimitive_congr shared]

theorem setUnit_congr (settings : Settings) : setUnit settings one = setUnit settings two := by
  funext first tokens side
  rw [setUnit, setUnit, schemaConstants_congr shared]

theorem compositeUnit_congr (settings : Settings) :
    compositeUnit settings one = compositeUnit settings two := by
  funext first tokens side
  rw [compositeUnit, compositeUnit, schemaConstants_congr shared]

theorem messageUnit_congr (settings : Settings) :
    messageUnit settings one = messageUnit settings two := by
  funext header first tokens side
  unfold messageUnit
  rw [schemaConstants_congr shared, headerTypes_congr shared]

end Source

namespace Plan

variable {one two : Schema} (shared : one.SharesFrame two) (settings : Settings)

include shared

theorem ofType_congr (tokens : List Token) :
    ofType settings one tokens = ofType settings two tokens := by
  unfold ofType
  rw [Source.setUnit_congr shared, Source.compositeUnit_congr shared]

theorem ofMessage_congr (header : String) (tokens : List Token) :
    ofMessage settings one header tokens = ofMessage settings two header tokens := by
  unfold ofMessage
  rw [Source.messageUnit_congr shared]

end Plan

/-! ### Streams and their units -/

namespace Schema

open Plan

/-- The units of the header, as a run for it alone writes them. -/
def unitsOfHeader (schema : Schema) (settings : Settings) : List SourceUnit :=
  match schema.header with
  | [] => []
  | first :: _ => (run (ofHeader settings schema first)).units

/-- The units of a type, as a run for it alone writes them. -/
def unitsOfType (schema : Schema) (settings : Settings) (tokens : List Token) : List SourceUnit :=
  (run (ofType settings schema tokens)).units

/-- The units of a message, as a run for it alone writes them. -/
def unitsOfMessage (schema : Schema) (settings : Settings) (tokens : List Token) :
    List SourceUnit :=
  (run (ofMessage settings schema (schema.headerName?.getD "") tokens)).units

/-- A run comes to its end exactly when the runs for the header and for each stream do. -/
theorem ending_generate {schema : Schema} {settings : Settings} :
    (schema.generate settings).ending = none ↔ ∃ first rest, schema.header = first :: rest ∧
      (run (ofHeader settings schema first)).ending = none ∧
      (∀ tokens ∈ schema.types, (run (ofType settings schema tokens)).ending = none) ∧
      ∀ tokens ∈ schema.messages, (run (ofMessage settings schema first.typeName tokens)).ending =
        none := by
  rw [generate, ofSchema]
  cases schema.header with
  | nil =>
    constructor
    · intro ended
      cases ended
    · rintro ⟨_, _, same, _⟩
      cases same
  | cons first rest =>
    dsimp only
    rw [ending_append, ending_append, ending_flatMap, ending_flatMap, and_assoc]
    constructor
    · intro ended
      exact ⟨first, rest, rfl, ended⟩
    · rintro ⟨_, _, same, ended⟩
      cases same
      exact ended

/-- A run to its end writes the units of the header, of the types and of the messages. -/
theorem units_generate {schema : Schema} {settings : Settings}
    (ended : (schema.generate settings).ending = none) :
    (schema.generate settings).units = schema.unitsOfHeader settings ++
      schema.types.flatMap (schema.unitsOfType settings) ++
      schema.messages.flatMap (schema.unitsOfMessage settings) := by
  obtain ⟨first, rest, header, headerEnds, typesEnd, messagesEnd⟩ := ending_generate.mp ended
  have front := ending_append.mpr ⟨headerEnds, ending_flatMap.mpr typesEnd⟩
  have name : schema.headerName?.getD "" = first.typeName := by
    rw [headerName?, header]
    rfl
  unfold unitsOfHeader unitsOfType unitsOfMessage
  rw [name, generate, ofSchema, header]
  dsimp only
  rw [units_append front, units_append headerEnds, units_flatMap typesEnd,
    units_flatMap messagesEnd]

/-- A name is found exactly when a type has it. -/
theorem isSome_type?_iff {schema : Schema} {name : String} :
    (schema.type? name).isSome = true ↔
    ∃ tokens ∈ schema.types, definedName tokens = some name := by
  rw [type?, List.find?_isSome]
  simp only [beq_iff_eq]

/-- The units of the header do not depend on the order of the types. -/
theorem ofHeader_congr {one two : Schema} (shared : one.SharesFrame two)
    (types : one.types.Perm two.types) (settings : Settings) (first : Token) :
    ofHeader settings one first = ofHeader settings two first := by
  have defined : (one.type? first.typeName).isSome = (two.type? first.typeName).isSome := by
    rw [Bool.eq_iff_iff, isSome_type?_iff, isSome_type?_iff]
    simp only [types.mem_iff]
  rw [ofHeader, ofHeader, defined, Source.compositeUnit_congr shared, shared.header]

/-- **Streams get their units separately.** In two schemas with one header, id and version, a run to
its end writes for each type and each message what a run for that stream alone writes, and this is
the same in both, whatever other types and messages there are. A schema with its types and messages
in another order can be generated as well, and gives the same units in another order. -/
theorem generate_streams_separately {one two : Schema} (shared : one.SharesFrame two)
    {settings : Settings} (ended : (one.generate settings).ending = none) :
    ((two.generate settings).ending = none →
      (one.generate settings).units = one.unitsOfHeader settings ++
        one.types.flatMap (one.unitsOfType settings) ++
        one.messages.flatMap (one.unitsOfMessage settings) ∧
      (two.generate settings).units = two.unitsOfHeader settings ++
        two.types.flatMap (two.unitsOfType settings) ++
        two.messages.flatMap (two.unitsOfMessage settings) ∧
      (∀ tokens, one.unitsOfType settings tokens = two.unitsOfType settings tokens) ∧
      ∀ tokens, one.unitsOfMessage settings tokens = two.unitsOfMessage settings tokens) ∧
    (one.types.Perm two.types → one.messages.Perm two.messages →
      (two.generate settings).ending = none ∧
        (one.generate settings).units.Perm (two.generate settings).units) := by
  have types : one.unitsOfType settings = two.unitsOfType settings :=
    funext
      fun tokens => congrArg (fun steps => (run steps).units) (ofType_congr shared settings tokens)
  have messages : one.unitsOfMessage settings = two.unitsOfMessage settings := by
    funext tokens
    rw [unitsOfMessage, unitsOfMessage, headerName?, headerName?, shared.header,
      ofMessage_congr shared settings]
  refine ⟨fun otherEnded => ⟨units_generate ended, units_generate otherEnded, congrFun types,
    congrFun messages⟩, fun sameTypes sameMessages => ?_⟩
  have header := ofHeader_congr shared sameTypes settings
  have otherEnded : (two.generate settings).ending = none := by
    obtain ⟨first, rest, opening, headerEnds, typesEnd, messagesEnd⟩ := ending_generate.mp ended
    refine ending_generate.mpr ⟨first, rest, shared.header ▸ opening, header first ▸ headerEnds,
      fun tokens member => ?_, fun tokens member => ?_⟩
    · rw [← ofType_congr shared]
      exact typesEnd tokens (sameTypes.mem_iff.mpr member)
    · rw [← ofMessage_congr shared]
      exact messagesEnd tokens (sameMessages.mem_iff.mpr member)
  have headers : one.unitsOfHeader settings = two.unitsOfHeader settings := by
    unfold unitsOfHeader
    rw [shared.header]
    simp only [header]
  refine ⟨otherEnded, ?_⟩
  rw [units_generate ended, units_generate otherEnded, headers, types, messages]
  exact ((sameTypes.flatMap_right _).append_left _).append (sameMessages.flatMap_right _)

/-- A schema with an enum, a set and two messages. -/
def ferries : Schema where
  packageName := "ferries"
  id := 31
  version := 1
  header := Build.messageHeader
  types := [Build.enumeration "Deck" 0 (.of .uint8) [("upper", .uint 1), ("lower", .uint 2)],
    Build.bitSet "Lights" 0 (.of .uint8) [("mast", 0), ("stern", 3)]]
  messages :=
    [Build.message "Sailing" 1 2 [Build.field "berth" 1 0 [Build.value "berth" 0 (.of .uint16)]],
    Build.message "Landing" 2 0
      [Build.group "cars" 3 0 1 Build.groupSize [Build.field "deck" 4 0
        (Build.enumeration "Deck" 0 (.of .uint8) [("upper", .uint 1), ("lower", .uint 2)])]]]

/-- The same streams in another order. -/
def ferriesReversed : Schema :=
  { ferries with types := ferries.types.reverse, messages := ferries.messages.reverse }

theorem ferries_streams_separately :
    ferries.SharesFrame ferriesReversed ∧ (ferries.generate {}).ending = none ∧
      ferries.types.Perm ferriesReversed.types ∧ ferries.messages.Perm ferriesReversed.messages ∧
      (ferriesReversed.generate {}).ending = none ∧
      (ferries.generate {}).units.Perm (ferriesReversed.generate {}).units ∧
      ferries.types.flatMap (ferries.unitsOfType {}) =
        ferries.types.flatMap (ferriesReversed.unitsOfType {}) := by
  have shared : ferries.SharesFrame ferriesReversed := ⟨rfl, rfl, rfl⟩
  have ended : (ferries.generate {}).ending = none := by decide +kernel
  have types : ferries.types.Perm ferriesReversed.types := (List.reverse_perm _).symm
  have messages : ferries.messages.Perm ferriesReversed.messages := (List.reverse_perm _).symm
  obtain ⟨alike, reordered⟩ := generate_streams_separately shared ended
  obtain ⟨otherEnded, units⟩ := reordered types messages
  obtain ⟨_, _, sameTypes, _⟩ := alike otherEnded
  exact ⟨shared, ended, types, messages, otherEnded, units, by rw [funext sameTypes]⟩

end Schema

end Sbe
