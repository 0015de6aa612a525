import Mathlib.Data.List.Perm.Basic
import Sbe.Proofs.Accepted
import Sbe.Token.Build

/-!
**Verification and the order of declarations.**

A verification run goes through the types and then through the messages, and ends at the first
fault, so runs of two orders can end in different places. Whether a run comes to its end depends on
no order: each stream is tested by itself, names must differ whichever comes first, and a reference
may be to a type that comes later.

* `Reorders`: two schemas with one header and the same streams in some order;
* `definedNames_perm`, `references_perm`: what a run collects;
* `Accepted.of_reorders`: what is accepted in one order;
* `verify_reordered`: whole runs.
-/

namespace Sbe.Schema

/-- Two schemas with one header, whose types and whose messages are the same up to their order. -/
structure Reorders (one two : Schema) : Prop where
  header : one.header = two.header
  types : one.types.Perm two.types
  messages : one.messages.Perm two.messages

variable {one two : Schema}

theorem Reorders.symm (reorders : one.Reorders two) : two.Reorders one :=
  ⟨reorders.header.symm, reorders.types.symm, reorders.messages.symm⟩

theorem Reorders.headerField (reorders : one.Reorders two) (field : HeaderField) :
    one.headerField field = two.headerField field := by
  rw [Schema.headerField, Schema.headerField, reorders.header]

/-- The names that are defined, each as often as before. -/
theorem definedNames_perm (reorders : one.Reorders two) :
    one.definedNames.Perm two.definedNames := by
  have names : (one.types.filterMap definedName).Perm (two.types.filterMap definedName) :=
    reorders.types.filterMap definedName
  rw [definedNames, definedNames, headerName?, headerName?, reorders.header]
  exact names.append_right _

/-- The references that are collected, each as often as before. -/
theorem references_perm (reorders : one.Reorders two) : one.references.Perm two.references :=
  (reorders.types.flatMap_right _).append (reorders.messages.flatMap_right _)

/-- What is accepted in one order is accepted in another: no test of a stream looks at the streams
before it, and a reference is looked up among all names. -/
theorem Accepted.of_reorders (reorders : one.Reorders two) (accepted : one.Accepted) :
    two.Accepted where
  header := reorders.header ▸ accepted.header
  fields field := by
    rw [← reorders.headerField field]
    exact accepted.fields field
  types tokens member := accepted.types tokens (reorders.types.mem_iff.mpr member)
  unique := (reorders.types.filterMap definedName).nodup_iff.mp accepted.unique
  messages tokens member := accepted.messages tokens (reorders.messages.mem_iff.mpr member)
  closed token member := by
    have known := accepted.closed token ((references_perm reorders).mem_iff.mpr member)
    exact (definedNames_perm reorders).mem_iff.mp known

/-- **Acceptance does not depend on the order of declarations.** A schema with its types and its
messages in any other order is accepted exactly when the schema is. -/
theorem verify_reordered (schema : Schema) {types messages : List (List Token)}
    (typesAlike : types.Perm schema.types) (messagesAlike : messages.Perm schema.messages) :
    { schema with types, messages }.verify = .ok () ↔ schema.verify = .ok () := by
  have reorders : Reorders { schema with types, messages } schema :=
    ⟨rfl, typesAlike, messagesAlike⟩
  rw [verify_eq_ok_iff, verify_eq_ok_iff]
  exact ⟨.of_reorders reorders, .of_reorders reorders.symm⟩

/-- A schema whose composite refers to an enum and a set that come after it. -/
def depot : Schema where
  packageName := "depot"
  id := 12
  header := Build.messageHeader
  types := [Build.composite "Tank" 0 3 [[Build.value "level" 0 (.of .uint8)],
      Build.enumeration "Fuel" 1 (.of .uint8) [("diesel", .uint 1), ("electric", .uint 2)],
      Build.bitSet "Valves" 2 (.of .uint8) [("inlet", 0), ("outlet", 4)]],
    Build.enumeration "Fuel" 0 (.of .uint8) [("diesel", .uint 1), ("electric", .uint 2)],
    Build.bitSet "Valves" 0 (.of .uint8) [("inlet", 0), ("outlet", 4)]]
  messages := [Build.message "Refill" 1 1 [Build.field "fuel" 1 0
      (Build.enumeration "Fuel" 0 (.of .uint8) [("diesel", .uint 1), ("electric", .uint 2)])],
    Build.message "Drain" 2 1 [Build.field "valves" 1 0
      (Build.bitSet "Valves" 0 (.of .uint8) [("inlet", 0), ("outlet", 4)])]]

/-- In the order of the schema the references of the composite are to later types, in the reverse
order to earlier ones. -/
theorem depot_verify_reversed :
    depot.types.reverse.Perm depot.types ∧ depot.messages.reverse.Perm depot.messages ∧
    depot.verify = .ok () ∧
    { depot with types := depot.types.reverse, messages := depot.messages.reverse }.verify =
      .ok () := by
  have accepted : depot.verify = .ok () := Outcome.eq_ok_of_isOk (by decide +kernel)
  have types : depot.types.reverse.Perm depot.types := List.reverse_perm _
  have messages : depot.messages.reverse.Perm depot.messages := List.reverse_perm _
  exact ⟨types, messages, accepted, (verify_reordered depot types messages).mpr accepted⟩

end Sbe.Schema
