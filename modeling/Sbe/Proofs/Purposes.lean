import Mathlib.Data.List.Forall2
import Sbe.Plan
import Sbe.Proofs.Outcome

/-!
**What the units of a schema are for.**

Which units a schema gets, in which order and under which names is decided by its streams alone; the
settings decide only what is in them. So a plan is a list of purposes, and a run is told by what
becomes of each of them.

* `Purpose`: what a unit is for, with its name and its code;
* `ofSchema_eq`: the steps for a schema are those of its purposes;
* `run_matches`: two runs of one list of purposes, when each step ends alike in both;
* `forall₂_run`: a run that comes to its end has a unit for each purpose.
-/

namespace Sbe

open Source (Code Side)
open Outcome (Alike)

namespace Plan

/-- What a step is for: the unit of an enum or of one side of a set, a composite or a message, each
with its first token and all its tokens, or nothing where no unit can be planned. -/
inductive Purpose where
  | enumeration (first : Token) (tokens : List Token)
  | bitSet (first : Token) (tokens : List Token) (side : Side)
  | composite (first : Token) (tokens : List Token) (side : Side)
  | message (header : String) (first : Token) (tokens : List Token) (side : Side)
  | nothing (cause : SchemaError)

namespace Purpose

/-- The name of the unit. -/
def name : Purpose → String
  | enumeration first _ => Name.unitName first.typeName
  | bitSet first _ side => unitName first.typeName side
  | composite first _ side => unitName first.typeName side
  | message _ first _ side => unitName first.name side
  | nothing _ => ""

/-- The code of the unit. -/
def code (settings : Settings) (schema : Schema) : Purpose → Result Code
  | enumeration first tokens => Source.enumUnit settings first tokens
  | bitSet first tokens side => Source.setUnit settings schema first tokens side
  | composite first tokens side => Source.compositeUnit settings schema first tokens side
  | message header first tokens side => Source.messageUnit settings schema header first tokens side
  | nothing cause => .refuse cause

/-- The step that is taken. -/
def step (settings : Settings) (schema : Schema) : Purpose → PlanStep
  | nothing cause => .stop cause
  | purpose => .emit purpose.name ((purpose.code settings schema).map Code.text)

/-- The purposes of a type. -/
def ofType : List Token → List Purpose
  | [] => [nothing (.emptyTokens .type)]
  | first :: rest =>
    match first.signal with
    | .beginEnum => [enumeration first (first :: rest)]
    | .beginSet => Side.both.map (bitSet first (first :: rest))
    | .beginComposite => Side.both.map (composite first (first :: rest))
    | _ => [nothing (Layout.misplaced .beginComposite first)]

/-- The purposes of a message, given the name of the header. -/
def ofMessage (header : String) : List Token → List Purpose
  | [] => [nothing (.emptyTokens .message)]
  | first :: rest => Side.both.map (message header first (first :: rest))

end Purpose

end Plan

open Plan

/-- The purposes of a schema, in the order of its plan. -/
def Schema.purposes (schema : Schema) : List Purpose :=
  match schema.header with
  | [] => [.nothing (.emptyTokens .header)]
  | first :: rest =>
    (if (schema.type? first.typeName).isSome then []
      else Side.both.map (.composite first (first :: rest))) ++
    schema.types.flatMap Purpose.ofType ++
      schema.messages.flatMap (Purpose.ofMessage first.typeName)

/-- Both sides of a message are purposes of its schema. -/
theorem Schema.message_mem_purposes {schema : Schema} {headerFirst : Token}
    {headerRest : List Token} (header : schema.header = headerFirst :: headerRest) {first : Token}
    {rest : List Token} (member : first :: rest ∈ schema.messages) (side : Side) :
    Purpose.message headerFirst.typeName first (first :: rest) side ∈ schema.purposes := by
  rw [purposes, header]
  refine List.mem_append_right _ (List.mem_flatMap.mpr ⟨_, member, List.mem_map_of_mem ?_⟩)
  cases side <;> decide

/-- What holds of the purposes of the header, of each type and of each message holds of all
purposes. -/
theorem Schema.forall_purposes {schema : Schema} {meets : Purpose → Prop}
    (absent : schema.header = [] → meets (.nothing (.emptyTokens .header)))
    (composite : ∀ first rest, schema.header = first :: rest →
      ∀ side, meets (.composite first (first :: rest) side))
    (types : ∀ tokens ∈ schema.types, ∀ purpose ∈ Purpose.ofType tokens, meets purpose)
    (messages : ∀ first rest, schema.header = first :: rest → ∀ tokens ∈ schema.messages,
      ∀ purpose ∈ Purpose.ofMessage first.typeName tokens, meets purpose) :
    ∀ purpose ∈ schema.purposes, meets purpose := by
  unfold purposes
  split
  · next header => exact List.forall_mem_singleton.mpr (absent header)
  · next first rest header =>
    refine List.forall_mem_append.mpr ⟨List.forall_mem_append.mpr ⟨?_, ?_⟩, ?_⟩
    · split
      · exact List.forall_mem_nil _
      · exact List.forall_mem_map.mpr fun side _ => composite first rest header side
    · exact List.forall_mem_flatMap.mpr types
    · exact List.forall_mem_flatMap.mpr (messages first rest header)

namespace Plan

theorem ofType_eq (settings : Settings) (schema : Schema) (tokens : List Token) :
    ofType settings schema tokens = (Purpose.ofType tokens).map (Purpose.step settings schema) := by
  cases tokens with
  | nil => rfl
  | cons first rest =>
    rw [ofType, Purpose.ofType]
    cases first.signal <;> rfl

theorem ofMessage_eq (settings : Settings) (schema : Schema) (header : String)
    (tokens : List Token) :
    ofMessage settings schema header tokens =
      (Purpose.ofMessage header tokens).map (Purpose.step settings schema) := by
  cases tokens with
  | nil => rfl
  | cons first rest => rfl

/-- The steps for a schema are those of its purposes. -/
theorem ofSchema_eq (settings : Settings) (schema : Schema) :
    ofSchema settings schema = schema.purposes.map (Purpose.step settings schema) := by
  unfold ofSchema Schema.purposes
  cases header : schema.header with
  | nil => rfl
  | cons first rest =>
    dsimp only
    rw [List.map_append, List.map_append, List.map_flatMap, List.map_flatMap, ofHeader, header,
      funext (ofType_eq settings schema), funext (ofMessage_eq settings schema first.typeName)]
    split
    · rfl
    · rfl

/-! ### Runs -/

/-- A run counts one for each unit that it has written. -/
theorem written_run (steps : List PlanStep) : (run steps).written = (run steps).units.length := by
  induction steps with
  | nil => rfl
  | cons step rest ih =>
    cases step with
    | stop cause => rfl
    | emit name code =>
      cases code with
      | error halt => rfl
      | ok code => exact congrArg (· + 1) ih

theorem run_emit (name : String) (code : Result Code) (rest : List PlanStep) :
    run (.emit name (code.map Code.text) :: rest) =
      match code with
      | .error halt => ⟨[], 0, some halt⟩
      | .ok code =>
        ⟨⟨name, code.text⟩ :: (run rest).units, (run rest).written + 1, (run rest).ending⟩ := by
  cases code with
  | error halt => rfl
  | ok code => rfl

/-- A run starts with the unit of its first purpose, or ends with the refusal of it. -/
theorem run_cons (settings : Settings) (schema : Schema) (purpose : Purpose)
    (rest : List PlanStep) :
    run (purpose.step settings schema :: rest) =
      match purpose.code settings schema with
      | .error halt => ⟨[], 0, some halt⟩
      | .ok code =>
        ⟨⟨purpose.name, code.text⟩ :: (run rest).units, (run rest).written + 1,
          (run rest).ending⟩ := by
  cases purpose with
  | nothing cause => rfl
  | enumeration | bitSet | composite | message => exact run_emit _ _ rest

/-- Two runs of a list of purposes that end alike, after units of the same names that are in a
relation. -/
structure Matches (relation : Purpose → String → String → Prop) (purposes : List Purpose)
    (run other : GenerationRun) : Prop where
  ending : run.ending = other.ending
  names : run.units.map SourceUnit.name = other.units.map SourceUnit.name
  planned : run.units.map SourceUnit.name <+: purposes.map Purpose.name
  codes : List.Forall₂ (fun item twin => relation item.1 item.2.code twin.code)
    (purposes.zip run.units) other.units

/-- **Two runs of one plan** match when every step ends alike in both. -/
theorem run_matches {relation : Purpose → String → String → Prop} {settings other : Settings}
    {schema : Schema} {purposes : List Purpose}
    (each : ∀ purpose ∈ purposes, Alike (fun code twin => relation purpose code.text twin.text)
      (purpose.code settings schema) (purpose.code other schema)) :
    Matches relation purposes (run (purposes.map (Purpose.step settings schema)))
      (run (purposes.map (Purpose.step other schema))) := by
  induction purposes with
  | nil =>
    rw [List.map_nil, List.map_nil]
    exact ⟨rfl, rfl, List.nil_prefix, .nil⟩
  | cons purpose rest ih =>
    obtain ⟨alike, later⟩ := List.forall_mem_cons.mp each
    obtain ⟨ending, names, planned, codes⟩ := ih later
    rw [List.map_cons, List.map_cons, run_cons, run_cons]
    cases emitted : purpose.code settings schema with
    | error halt =>
      cases twin : purpose.code other schema with
      | ok => rw [emitted, twin] at alike; cases alike
      | error same =>
        rw [emitted, twin] at alike
        exact ⟨congrArg some alike, rfl, List.nil_prefix, by rw [List.zip_nil_right]; exact .nil⟩
    | ok code =>
      cases twin : purpose.code other schema with
      | error => rw [emitted, twin] at alike; cases alike
      | ok same =>
        rw [emitted, twin] at alike
        exact ⟨ending, congrArg (purpose.name :: ·) names, List.prefix_cons_inj _ |>.mpr planned,
          .cons alike codes⟩

/-- A run that comes to its end has written a unit for each purpose. -/
theorem forall₂_run {settings : Settings} {schema : Schema} {purposes : List Purpose}
    (ended : (run (purposes.map (Purpose.step settings schema))).ending = none) :
    List.Forall₂ (fun purpose unit => unit.name = purpose.name ∧
        ∃ code, purpose.code settings schema = .ok code ∧ unit.code = code.text)
      purposes (run (purposes.map (Purpose.step settings schema))).units := by
  induction purposes with
  | nil => exact .nil
  | cons purpose rest ih =>
    rw [List.map_cons, run_cons] at ended ⊢
    cases emitted : purpose.code settings schema with
    | error halt => rw [emitted] at ended; cases ended
    | ok code =>
      rw [emitted] at ended
      exact .cons ⟨rfl, code, emitted, rfl⟩ (ih ended)

end Plan

end Sbe
