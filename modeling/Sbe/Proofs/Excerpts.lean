import Mathlib.Data.List.Infix
import Sbe.Proofs.Rewording
import Sbe.Proofs.VarDataShape
import Sbe.Source.Message

/-!
**Where the members of types stand.**

A unit puts the members of its type between the lines that every such type has, one level further to
the right. The groups of a message are types of their own, in the same unit.

* `Code.infix_block`, `Code.infix_flatMap`: parts of blocks and of repeated lines;
* `members_infix_view`: the members of sets and composites;
* `accessors_infix_bodyMembers`, `varDataAccessors_infix`: fields among the members of their body;
* `members_infix_messageUnit`: the members of all bodies in a message, at every depth of groups.
-/

namespace Sbe

theorem Token.primitive_eq_ok_iff {token : Token} {primitive : Primitive} :
    token.primitive = .ok primitive ↔ token.encoding.primitive = some primitive := by
  rw [Token.primitive]
  cases token.encoding.primitive with
  | none => simp [Outcome.ofOption]
  | some declared => simp [Outcome.ofOption]

theorem exists_of_forall₂ {α β : Type} {relation : α → β → Prop} {items : List α} {others : List β}
    (related : List.Forall₂ relation items others) {item : α} (member : item ∈ items) :
    ∃ other ∈ others, relation item other := by
  induction related with
  | nil => cases member
  | cons first _ ih =>
    obtain rfl | later := List.mem_cons.mp member
    · exact ⟨_, List.mem_cons_self, first⟩
    · obtain ⟨other, inside, holds⟩ := ih later
      exact ⟨other, List.mem_cons_of_mem _ inside, holds⟩

theorem exists_of_mapM {α β : Type} {work : α → Result β} {items : List α} {values : List β}
    (made : items.mapM work = .ok values) {item : α} (member : item ∈ items) :
    ∃ value ∈ values, work item = .ok value := by
  have each : Outcome.Yields (items.mapM work)
      (List.Forall₂ (fun item value => work item = .ok value) items) :=
    .mapM fun item _ value done => done
  exact exists_of_forall₂ (each values made) member

namespace Source

open Sbe.Layout

namespace Code

theorem infix_block (head : String) {part body : Code} (inside : part <:+: body) :
    indent part <:+: block head body :=
  (inside.map _).trans ⟨[head ++ " \x7b"], ["\x7d"], rfl⟩

theorem infix_spaced (code : Code) : code <:+: spaced code := (List.suffix_cons "" code).isInfix

theorem infix_flatMap {α : Type} {item : α} {items : List α} (member : item ∈ items)
    (lines : α → Code) : lines item <:+: items.flatMap lines := by
  rw [List.flatMap_def]
  exact List.infix_of_mem_flatten (List.mem_map_of_mem member)

/-- The lines made for an item stand among all lines that are made. -/
theorem infix_of_mapM {α : Type} {work : α → Result Code} {items : List α} {codes : List Code}
    (made : items.mapM work = .ok codes) {item : α} (member : item ∈ items) :
    ∃ code, work item = .ok code ∧ code <:+: codes.flatten := by
  obtain ⟨code, inside, done⟩ := exists_of_mapM made member
  exact ⟨code, done, List.infix_of_mem_flatten inside⟩

end Code

/-- The members of a view stand in its unit. -/
theorem members_infix_view (settings : Settings) (schemaLines : Code) (first : Token) (side : Side)
    (members : Code) : Code.indent members <:+: view settings schemaLines first side members := by
  unfold view
  refine List.IsInfix.trans ?_ (List.infix_append _ _ _)
  refine List.IsInfix.trans ?_ (Code.infix_spaced _)
  exact Code.infix_block _ (List.suffix_append _ _).isInfix

section Bodies

variable {settings : Settings} {body : Body} {path : String} {side : Side} {members : Code}

/-- The members of a body are the lines of its fields, its groups and its fields of variable length,
and on decoders those that show it. -/
theorem bodyMembers_eq_ok (made : bodyMembers settings body path side = .ok members) :
    ∃ layouts fields groups varData varDataCode render, splitFields 0 body.fields = .ok layouts ∧
      layouts.mapM (fieldAccessors settings side) = .ok fields ∧
      splitVarData 0 body.varData = .ok varData ∧
      varData.mapM (varDataAccessors settings side) = .ok varDataCode ∧
      members = (fields.map Prod.snd).flatten ++ groups ++ varDataCode.flatten ++ render := by
  unfold bodyMembers at made
  obtain ⟨layouts, split, made⟩ := Outcome.bind_eq_ok_iff.mp made
  obtain ⟨fields, each, made⟩ := Outcome.bind_eq_ok_iff.mp made
  obtain ⟨_, _, made⟩ := Outcome.bind_eq_ok_iff.mp made
  obtain ⟨groupCode, _, made⟩ := Outcome.bind_eq_ok_iff.mp made
  obtain ⟨varData, found, made⟩ := Outcome.bind_eq_ok_iff.mp made
  obtain ⟨varDataCode, spelled, made⟩ := Outcome.bind_eq_ok_iff.mp made
  cases side
  all_goals
    obtain ⟨render, _, made⟩ := Outcome.bind_eq_ok_iff.mp made
    cases made
    exact ⟨layouts, fields, _, varData, varDataCode, render, split, each, found, spelled, rfl⟩

/-- The lines of a field of variable length stand among the members of its body. -/
theorem varDataAccessors_infix (made : bodyMembers settings body path side = .ok members)
    {layouts : List VarDataLayout} (found : splitVarData 0 body.varData = .ok layouts)
    {layout : VarDataLayout} (member : layout ∈ layouts) :
    ∃ accessors, varDataAccessors settings side layout = .ok accessors ∧
      accessors <:+: members := by
  obtain ⟨_, _, _, varData, _, _, _, _, split, each, rfl⟩ := bodyMembers_eq_ok made
  rw [found] at split
  cases split
  obtain ⟨accessors, done, inside⟩ := Code.infix_of_mapM each member
  exact ⟨accessors, done, inside.trans (List.infix_append _ _ _)⟩

/-- The accessors of a field stand among the members of its body. -/
theorem accessors_infix_bodyMembers (made : bodyMembers settings body path side = .ok members)
    {layouts : List FieldLayout} (found : splitFields 0 body.fields = .ok layouts)
    {layout : FieldLayout} (member : layout ∈ layouts) {property : Property}
    (opened : Property.ofField layout = .ok property) :
    ∃ functions, accessors settings side .body property = .ok functions ∧
      functions <:+: members := by
  obtain ⟨_, fields, _, _, _, _, split, each, _, _, rfl⟩ := bodyMembers_eq_ok made
  rw [found] at split
  cases split
  obtain ⟨field, inside, done⟩ := exists_of_mapM each member
  unfold fieldAccessors at done
  rw [opened, Outcome.ok_bind] at done
  obtain ⟨functions, emitted, done⟩ := Outcome.bind_eq_ok_iff.mp done
  cases done
  have among : functions <:+: (fields.map Prod.snd).flatten :=
    List.infix_of_mem_flatten (List.mem_map_of_mem inside)
  rw [List.append_assoc, List.append_assoc]
  exact ⟨functions, emitted, among.trans (List.prefix_append _ _).isInfix⟩

end Bodies

/-! ### Groups and messages -/

/-- The members of the body of a group stand in the type of the group. -/
theorem members_infix_groupType {settings : Settings} {layout : GroupLayout} {path : String}
    {side : Side} {code : Code} (made : groupType settings layout path side = .ok code) :
    ∃ members, bodyMembers settings layout.body (groupPath path layout.group) side = .ok members ∧
      Code.indent members <:+: code := by
  unfold groupType at made
  dsimp only at made
  obtain ⟨blockLength, _, made⟩ := Outcome.bind_eq_ok_iff.mp made
  obtain ⟨numInGroup, _, made⟩ := Outcome.bind_eq_ok_iff.mp made
  obtain ⟨length, _, made⟩ := Outcome.bind_eq_ok_iff.mp made
  cases side
  all_goals
    obtain ⟨opening, _, made⟩ := Outcome.bind_eq_ok_iff.mp made
    obtain ⟨members, done, made⟩ := Outcome.bind_eq_ok_iff.mp made
    cases made
    refine ⟨members, done, ?_⟩
    refine List.IsInfix.trans ?_ (List.suffix_append _ _).isInfix
    refine List.IsInfix.trans ?_ (Code.infix_spaced _)
    exact Code.infix_block _ (List.infix_append _ _ _)

/-- The members of all bodies inside a body stand in the types of its groups, or are those of the
body itself. -/
theorem members_infix_groupTypes {settings : Settings} {side : Side} {body inner : Body}
    (contains : body.Contains inner) {path : String} {members types : Code}
    (own : bodyMembers settings body path side = .ok members)
    (made : groupTypes settings body path side = .ok types) :
    ∃ (innerPath : String) (inside : Code), bodyMembers settings inner innerPath side = .ok inside ∧
      (inside = members ∨ Code.indent inside <:+: types) := by
  induction contains generalizing path members types with
  | self body => exact ⟨path, members, own, .inl rfl⟩
  | group found member _ ih =>
    rw [groupTypes_eq, found, Outcome.ok_bind] at made
    obtain ⟨codes, each, made⟩ := Outcome.bind_eq_ok_iff.mp made
    cases made
    obtain ⟨code, done, within⟩ := Code.infix_of_mapM each member
    obtain ⟨type, typeMade, done⟩ := Outcome.bind_eq_ok_iff.mp done
    obtain ⟨nested, nestedMade, done⟩ := Outcome.bind_eq_ok_iff.mp done
    cases done
    obtain ⟨groupMembers, groupMade, inType⟩ := members_infix_groupType typeMade
    obtain ⟨innerPath, inside, insideMade, same | inNested⟩ := ih groupMade nestedMade
    · subst same
      exact ⟨innerPath, inside, insideMade,
        .inr ((inType.trans (List.prefix_append _ _).isInfix).trans within)⟩
    · exact ⟨innerPath, inside, insideMade,
        .inr ((inNested.trans (List.suffix_append _ _).isInfix).trans within)⟩

/-- **The members of all bodies of a message stand in its unit**, at every depth of groups. -/
theorem members_infix_messageUnit {settings : Settings} {schema : Schema} {header : String}
    {first : Token} {tokens : List Token} {side : Side} {code : Code}
    (made : messageUnit settings schema header first tokens side = .ok code) {body inner : Body}
    (found : decomposeMessage tokens = .ok body) (contains : body.Contains inner) :
    ∃ (path : String) (members : Code), bodyMembers settings inner path side = .ok members ∧
      Code.indent members <:+: code := by
  unfold messageUnit at made
  rw [found, Outcome.ok_bind] at made
  obtain ⟨types, _, made⟩ := Outcome.bind_eq_ok_iff.mp made
  obtain ⟨blockLength, _, made⟩ := Outcome.bind_eq_ok_iff.mp made
  obtain ⟨templateId, _, made⟩ := Outcome.bind_eq_ok_iff.mp made
  obtain ⟨schemaLines, _, made⟩ := Outcome.bind_eq_ok_iff.mp made
  obtain ⟨members, own, made⟩ := Outcome.bind_eq_ok_iff.mp made
  obtain ⟨groups, groupsMade, made⟩ := Outcome.bind_eq_ok_iff.mp made
  cases made
  obtain ⟨path, inside, insideMade, same | inGroups⟩ :=
    members_infix_groupTypes contains own groupsMade
  · subst same
    refine ⟨path, inside, insideMade, ?_⟩
    refine List.IsInfix.trans ?_ (List.prefix_append _ _).isInfix
    refine List.IsInfix.trans ?_ (List.prefix_append _ _).isInfix
    refine List.IsInfix.trans ?_ (List.infix_append _ _ _)
    refine List.IsInfix.trans ?_ (Code.infix_spaced _)
    exact Code.infix_block _ (List.infix_append _ _ _)
  · refine ⟨path, inside, insideMade, inGroups.trans ?_⟩
    exact (List.infix_append _ _ _)

end Source

end Sbe
