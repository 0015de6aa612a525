import Sbe.Proofs.GuardedBodies
import Sbe.Proofs.Purposes

/-!
**Guards stand exactly where they are needed.**

A decoder that meets a message older than an element must not read it, and an element that was
always there needs no test. So the decoder of a message has, for each version, the guards of the
elements that came with it, and no other unit has any.

* `Span.Tree.count_elements_tests`: the guards of a message for one version;
* `Plan.Purpose.Guarded`: the guards that a unit has among its lines;
* `Schema.generate_guarded`: the guards of all units of a run.
-/

namespace Sbe

open Sbe.Text
open Sbe.Outcome (Yields)
open Sbe.Source
open Sbe.Layout
open Sbe.Span (Tree)

/-! ### Counting guards -/

namespace Span.Tree

theorem count_tests (tree : Tree) {version : Nat} (later : 0 < version) :
    (tree.tests .decoder).count version =
      if tree.first.version.toNat = version then tree.wireReads else 0 := by
  rw [tests, versionTests, List.count_replicate]
  by_cases since : tree.first.version.toNat = version
  · have guarded : 0 < tree.first.version := UInt32.lt_iff_toNat_lt.mpr (by rw [since]; exact later)
    simp [since, guarded]
  · simp [since]

/-- No element that was always there is guarded. -/
theorem pos_of_mem_tests {side : Side} {tree : Tree} {version : Nat}
    (member : version ∈ tree.tests side) : 0 < version := by
  rw [tests, versionTests, List.mem_replicate] at member
  obtain ⟨guarded, rfl⟩ := member
  split at guarded
  · next tested =>
    exact UInt32.lt_iff_toNat_lt.mp (of_decide_eq_true (Bool.and_eq_true_iff.mp tested).2)
  · exact absurd rfl guarded

theorem count_elements_tests (tree : Tree) {version : Nat} (later : 0 < version) :
    (tree.elements.flatMap (tests .decoder)).count version = tree.guardsFor version := by
  unfold guardsFor
  induction tree.elements with
  | nil => rfl
  | cons element rest ih =>
    rw [List.flatMap_cons, List.count_append, count_tests element later, ih, List.filter_cons]
    by_cases since : element.first.version.toNat = version
    · simp [since]
    · simp [since]

end Span.Tree

namespace Source.Guards

variable {depth : Nat} {code : Code}

theorem guardLine_not_mem (guards : Guards depth code []) (other version : Nat) :
    guardLine other version ∉ lines code.text := by
  rw [← List.count_eq_zero, guards.count_lines, List.count_nil, ite_self]

theorem mem_of_guardLine_mem {versions : List Nat} (guards : Guards depth code versions)
    {other version : Nat} (member : guardLine other version ∈ lines code.text) :
    other = depth ∧ version ∈ versions := by
  rw [← List.count_pos_iff, guards.count_lines] at member
  by_cases same : other = depth
  · rw [if_pos same, List.count_pos_iff] at member
    exact ⟨same, member⟩
  · rw [if_neg same] at member
    cases member

end Source.Guards

/-! ### Units -/

namespace Plan.Purpose

/-- The guards among the lines of a unit. The decoder of a message has those that its elements call
for, all at the same depth; no other unit has any. -/
def Guarded (lines : List String) : Purpose → Prop
  | message _ _ tokens .decoder => ∃ tree, IsMessage tree ∧ tree.flatten = tokens ∧
      (∀ version, 0 < version → lines.count (guardLine 2 version) = tree.guardsFor version) ∧
      ∀ depth version, guardLine depth version ∈ lines → depth = 2 ∧ 0 < version
  | _ => ∀ depth version, guardLine depth version ∉ lines

variable {settings : Settings} (plain : settings.Plain) (schema : Schema)

include plain

/-- The units of a message. -/
theorem ofMessage_guarded {header : String} (plainHeader : Plain header) {tokens : List Token}
    (accepted : MessageAccepted tokens) : ∀ purpose ∈ ofMessage header tokens,
      Yields (purpose.code settings schema) fun code => purpose.Guarded (lines code.text) := by
  obtain ⟨tree, isMessage, rfl⟩ := exists_isMessage accepted
  have units (side : Side) :=
    messageUnit_yields plain schema plainHeader isMessage accepted.1.named side
  have purposes : ofMessage header tree.flatten =
      [message header tree.first tree.flatten .decoder,
        message header tree.first tree.flatten .encoder] := by
    rw [Tree.flatten_eq_cons]
    rfl
  rw [purposes]
  refine List.forall_mem_cons.mpr ⟨?_, List.forall_mem_singleton.mpr ?_⟩
  · refine (units .decoder).mono
      fun code guards => ⟨tree, isMessage, rfl, fun version later => ?_, ?_⟩
    · rw [guards.count_lines, if_pos rfl, tree.count_elements_tests later]
    · intro depth version member
      obtain ⟨same, test⟩ := guards.mem_of_guardLine_mem member
      obtain ⟨element, _, test⟩ := List.mem_flatMap.mp test
      exact ⟨same, Tree.pos_of_mem_tests test⟩
  · refine (units .encoder).mono fun code guards => ?_
    have none : tree.elements.flatMap (Tree.tests .encoder) = [] :=
      List.flatMap_eq_nil_iff.mpr fun element _ => element.tests_encoder
    rw [none] at guards
    exact guards.guardLine_not_mem

theorem composite_guarded {first : Token} {rest : List Token}
    (named : ∀ token ∈ first :: rest, token.IsNamed) :
    ∀ purpose ∈ Side.both.map (composite first (first :: rest)),
      Yields (purpose.code settings schema) fun code => purpose.Guarded (lines code.text) := by
  have plainName := Name.plain_of_isIdentifier (named first List.mem_cons_self).typeName
  refine List.forall_mem_map.mpr fun side _ => ?_
  exact (compositeUnit_yields plain schema plainName named side).mono
    fun code guards => guards.guardLine_not_mem

/-- The units of a type. -/
theorem ofType_guarded {tokens : List Token} (accepted : TypeAccepted tokens) :
    ∀ purpose ∈ ofType tokens, Yields (purpose.code settings schema)
      fun code => purpose.Guarded (lines code.text) := by
  obtain ⟨first, rest, rfl, _⟩ := accepted.opening
  have named := accepted.named
  have plainName := Name.plain_of_isIdentifier (named first List.mem_cons_self).typeName
  rw [ofType]
  split
  · refine List.forall_mem_singleton.mpr ?_
    refine (enumUnit_yields plain plainName fun token member =>
      Name.plain_of_isIdentifier (named token member).1).mono fun code free => ?_
    have guards : Guards 0 code [] := .of_free free
    exact guards.guardLine_not_mem
  · refine List.forall_mem_map.mpr fun side _ => ?_
    exact (setUnit_yields plain schema plainName (fun token member => (named token member).1)
      side).mono fun code guards => guards.guardLine_not_mem
  · exact composite_guarded plain schema named
  · exact List.forall_mem_singleton.mpr (.refuse _)

/-- The units of a schema. -/
theorem purposes_guarded {schema : Schema} (accepted : schema.Accepted) :
    ∀ purpose ∈ schema.purposes, Yields (purpose.code settings schema)
      fun code => purpose.Guarded (lines code.text) := by
  obtain ⟨first, rest, header, _⟩ := accepted.header.opening
  have named := accepted.header.named
  rw [header] at named
  have plainHeader := Name.plain_of_isIdentifier (named first List.mem_cons_self).typeName
  rw [Schema.purposes, header]
  refine List.forall_mem_append.mpr ⟨List.forall_mem_append.mpr ⟨?_, ?_⟩, ?_⟩
  · split
    · exact List.forall_mem_nil _
    · exact composite_guarded plain schema named
  · refine List.forall_mem_flatMap.mpr fun tokens member => ?_
    exact ofType_guarded plain schema (accepted.types tokens member)
  · refine List.forall_mem_flatMap.mpr fun tokens member => ?_
    exact ofMessage_guarded plain schema plainHeader (accepted.messages tokens member)

end Plan.Purpose

namespace Schema

open Plan

/-- **Guards stand exactly where they are needed.** A run for a verified schema that comes to its
end writes a unit for each purpose. The decoder of a message has a guard for each function that
reads an element from the wire, at every depth of groups and under the version of the element, and
none for an element that was always there; no other unit has a guard. -/
theorem generate_guarded {schema : Schema} (verified : schema.verify = .ok ()) {settings : Settings}
    (plain : settings.Plain) (ended : (schema.generate settings).ending = none) :
    List.Forall₂ (fun purpose unit => unit.name = purpose.name ∧ purpose.Guarded (lines unit.code))
      schema.purposes (schema.generate settings).units := by
  have each := Purpose.purposes_guarded plain (verify_eq_ok_iff.mp verified)
  rw [generate, ofSchema_eq] at ended ⊢
  refine ((List.forall₂_and_left _ _).mpr ⟨each, forall₂_run ended⟩).imp ?_
  rintro purpose unit ⟨guarded, name, code, made, text⟩
  rw [text]
  exact ⟨name, guarded code made⟩

/-- A schema whose elements came with three versions: a text, an enum, a constant, a group inside a
group and a field of variable length. -/
def harbour : Schema where
  packageName := "harbour"
  id := 18
  version := 2
  header := Build.messageHeader
  types := [Build.enumeration "Cargo" 0 (.of .uint8) [("coal", .uint 1), ("grain", .uint 2)]]
  messages := [Build.message "Arrival" 1 7
    [Build.field "berth" 1 0 [Build.value "berth" 0 (.of .uint16)],
      Build.field "flag" 2 1 [{ Build.value "flag" 2 (.of .char) with encodedLength := 4 }],
      Build.field "cargo" 3 2
        (Build.enumeration "Cargo" 6 (.of .uint8) [("coal", .uint 1), ("grain", .uint 2)]),
      Build.field "unit" 4 2 [Build.constant "unit" .uint8 (.uint 3)],
      Build.group "tugs" 5 1 2 Build.groupSize
        [Build.field "power" 6 0 [Build.value "power" 0 (.of .uint16)],
          Build.group "crew" 7 2 1 Build.groupSize
            [Build.field "rank" 8 2 [Build.value "rank" 0 (.of .uint8)]]],
      Build.varData "note" 9 1 (Build.varDataEncoding none)]]

theorem harbour_generate_guarded :
    harbour.verify = .ok () ∧ Settings.Plain { keywordAppendToken := some "_" } ∧
      (harbour.generate { keywordAppendToken := some "_" }).ending = none ∧
      List.Forall₂
        (fun purpose unit => unit.name = purpose.name ∧ purpose.Guarded (lines unit.code))
        harbour.purposes (harbour.generate { keywordAppendToken := some "_" }).units := by
  have verified : harbour.verify = .ok () := Outcome.eq_ok_of_isOk (by decide +kernel)
  have plain : Settings.Plain { keywordAppendToken := some "_" } :=
    ⟨by rintro token ⟨⟩; exact plain_literal rfl, plain_literal rfl, plain_literal rfl,
      plain_literal rfl⟩
  have ended : (harbour.generate { keywordAppendToken := some "_" }).ending = none := by
    decide +kernel
  exact ⟨verified, plain, ended, generate_guarded verified plain ended⟩

end Schema

end Sbe
