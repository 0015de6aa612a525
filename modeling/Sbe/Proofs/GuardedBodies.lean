import Mathlib.Algebra.GroupWithZero.Nat
import Sbe.Proofs.CompleteLayout
import Sbe.Proofs.GuardFreeUnits
import Sbe.Proofs.Rewording
import Sbe.Source.Message

/-!
**Guards of bodies.**

A decoder opens what a body has with functions of which each tests the version by itself. The bodies
of groups are in types of their own behind the message, so that the guards of a message are those of
its body, then those of the bodies inside it.

* `Span.Tree.wireReads`: the functions that read an element of a body from the wire;
* `Span.Tree.elements`: the elements of a body and of the bodies inside it;
* `bodyMembers_yields`, `groupTypes_yields`: the guards of a body, and of the groups in it at every
  depth;
* `messageUnit_yields`: the guards of a message.
-/

namespace Sbe.Source

open Sbe.Text
open Sbe.Outcome (Yields)

/-! ### Groups -/

theorem plain_groupName {path : String} (plain : Plain path) {group : Token}
    (named : Plain group.name) (side : Side) : Plain (groupName path group side) :=
  (plain_append _ _).mpr ⟨plain, plain_codecName named side⟩

theorem plain_groupPath {path : String} (plain : Plain path) {group : Token}
    (named : Plain group.name) : Plain (groupPath path group) :=
  (plain_append _ _).mpr
    ⟨plain, (plain_append _ _).mpr ⟨Name.plain_pascalCase named, plain_literal rfl⟩⟩

/-- A group has a guard in the function that opens it for reading. -/
theorem groupAccessors_yields {settings : Settings} (plain : settings.Plain) {path : String}
    (plainPath : Plain path) {layout : GroupLayout} (named : Plain layout.group.name)
    (side : Side) :
    Yields (groupAccessors settings path side layout) fun code =>
      Guards 1 code (versionTests (side == .decoder && decide (0 < layout.group.version)) 1
          layout.group.version.toNat) := by
  have upper := Name.plain_upperSnakeCase named
  have typeName := plain_groupName plainPath named side
  refine (plain.propertyName named).bind fun accessor plainAccessor => ?_
  cases side with
  | decoder =>
    refine .pure (.preceded (.function ?_ (.followed (guards_guardIf _ _ ?_) ?_)) ?_)
    all_goals simp (disch := constructor; rfl; decide) [plainAccessor, typeName, upper]
  | encoder =>
    refine (Yields.any _).bind fun count _ => .pure (.of_free ?_)
    simp (disch := constructor; rfl; decide) [plainAccessor, typeName, upper]

theorem groupEntry_yields {settings : Settings} (plain : settings.Plain) {layout : GroupLayout}
    (named : Plain layout.group.name) : Yields (groupEntry settings layout) Free := by
  refine (plain.propertyName named).bind fun accessor plainAccessor => .pure ?_
  simp (disch := constructor; rfl; decide) [plainAccessor]

theorem varDataEntry_yields {settings : Settings} (plain : settings.Plain) {layout : VarDataLayout}
    (named : Plain layout.varData.name) : Yields (varDataEntry settings layout) Free := by
  refine (plain.propertyName named).bind fun accessor plainAccessor => .pure ?_
  split
  · simp (disch := constructor; rfl; decide) [plainAccessor]
  · simp (disch := constructor; rfl; decide) [plainAccessor]

theorem bodyRender_yields {settings : Settings} (plain : settings.Plain) {fields : List Property}
    (plainFields : ∀ property ∈ fields, property.Plain) {groups : List GroupLayout}
    (plainGroups : ∀ layout ∈ groups, Plain layout.group.name) {varData : List VarDataLayout}
    (plainVarData : ∀ layout ∈ varData, Plain layout.varData.name) :
    Yields (bodyRender settings fields groups varData) Free := by
  refine (propertyEntries_yields plain plainFields .body).bind fun fieldEntries freeFields => ?_
  refine (Yields.forall_mapM fun layout member =>
    groupEntry_yields plain (plainGroups layout member)).bind fun groupEntries freeGroups => ?_
  refine (Yields.forall_mapM fun layout member =>
    varDataEntry_yields plain
      (plainVarData layout member)).bind fun varDataEntries freeVarData => .pure ?_
  have joined : Free (joinEntries (fieldEntries.filterMap id ++ groupEntries ++ varDataEntries)) :=
    joinEntries_free (List.forall_mem_append.mpr
      ⟨List.forall_mem_append.mpr ⟨freeFields, freeGroups⟩, freeVarData⟩)
  generalize fieldEntries.filterMap id ++ groupEntries ++ varDataEntries = entries at joined ⊢
  simp (disch := constructor; rfl; decide) [joined]

theorem groupStructure_free {typeName : String} (plain : Plain typeName) (blockLength : Primitive)
    (side : Side) : Free (groupStructure typeName blockLength side) := by
  cases side with
  | decoder => simp (disch := constructor; rfl; decide) [groupStructure, plain]
  | encoder => simp (disch := constructor; rfl; decide) [groupStructure, plain]

theorem groupReads_free (layout : GroupLayout) (blockLength numInGroup : Primitive) :
    Free (groupReads layout blockLength numInGroup) := by
  simp (disch := constructor; rfl; decide) [groupReads]

theorem groupWrites_yields (layout : GroupLayout) (blockLength numInGroup : Primitive) :
    Yields (groupWrites layout blockLength numInGroup) Free := by
  refine (literal_yields _ _ _).bind fun least plainLeast => ?_
  refine (literal_yields _ _ _).bind fun greatest plainGreatest => .pure ?_
  simp (disch := constructor; rfl; decide) [plainLeast, plainGreatest]

theorem actingFunctions_free (side : Side) {field : String} (mild : Mild field)
    (foreign : Foreign field) (blockLength : Primitive) :
    Free (actingFunctions side field blockLength) := by
  cases side with
  | decoder => simp (disch := constructor; rfl; decide) [actingFunctions, mild.1, foreign]
  | encoder => exact free_nil

@[simp] theorem limitFunctions_free : Free limitFunctions := by
  simp (disch := constructor; rfl; decide) [limitFunctions]

@[simp] theorem iteration_free (name : String) (side : Side) : Free (iteration name side) := by
  cases side with
  | decoder => simp (disch := constructor; rfl; decide) [iteration]
  | encoder => simp (disch := constructor; rfl; decide) [iteration]

@[simp] theorem groupRender_free : Free groupRender := by
  simp (disch := constructor; rfl; decide) [groupRender]

/-! ### Messages -/

@[simp] theorem messageRender_free (name : String) : Free (messageRender name) := by
  simp (disch := constructor; rfl; decide) [messageRender, renderNumber]

theorem messageStructure_free (types : HeaderTypes) {typeName : String} (plain : Plain typeName)
    (side : Side) : Free (messageStructure types typeName side) := by
  cases side with
  | decoder => simp (disch := constructor; rfl; decide) [messageStructure, plain]
  | encoder => simp (disch := constructor; rfl; decide) [messageStructure, plain]

theorem messageReads_free (types : HeaderTypes) : Free (messageReads types) := by
  simp (disch := constructor; rfl; decide) [messageReads]

theorem messageWrites_free {header : String} (plain : Plain header) :
    Free (messageWrites header) := by
  have fields (field : HeaderField) : Plain (Name.snakeCase field.name) := by
    cases field <;> exact Name.plain_snakeCase (plain_literal rfl)
  simp (disch := constructor; rfl; decide) [messageWrites, plain, fields]

theorem messageDisplay_free {name : String} (plain : Plain name) (side : Side) :
    Free (messageDisplay name side) := by
  cases side with
  | decoder => simp (disch := constructor; rfl; decide) [messageDisplay, plain_codecName plain]
  | encoder => simp (disch := constructor; rfl; decide) [messageDisplay, plain_codecName plain]

theorem messageInterfaces_free {settings : Settings} (plain : settings.Plain) {typeName : String}
    (plainType : Plain typeName) (side : Side) :
    Free (messageInterfaces settings typeName side) := by
  cases side with
  | decoder =>
    simp (disch := constructor; rfl; decide) [messageInterfaces, plain.supportPath, plainType]
  | encoder =>
    simp (disch := constructor; rfl; decide) [messageInterfaces, plain.supportPath, plainType]

end Sbe.Source

namespace Sbe

open Sbe.Text
open Sbe.Outcome (Yields)
open Sbe.Source
open Sbe.Layout
open Sbe.Span (Tree)
open Sbe.Span.Tree (flattenAll)

/-! ### Elements of bodies -/

namespace Span.Tree

/-- The functions of a decoder that read an element of a body from the wire; the type of a field is
its first child. -/
def wireReads (tree : Tree) : Nat :=
  match tree.first.signal, tree.children with
  | .beginField, type :: _ =>
    Source.wireReads (type.first.isConstant || tree.first.isConstant) type.first
  | .beginGroup, _ => 1
  | .beginVarData, _ => 3
  | _, _ => 0

/-- Whether a tree is a field, a group or a field of variable length. -/
def isElement (tree : Tree) : Bool :=
  tree.first.signal ∈ [Signal.beginField, .beginGroup, .beginVarData]

mutual

/-- The elements of the body of a message or group, then those of the bodies inside it. -/
def elements : Tree → List Tree
  | leaf _ => []
  | node _ children _ => children.filter isElement ++ innerElements children

/-- The elements of the bodies of groups. -/
def innerElements : List Tree → List Tree
  | [] => []
  | tree :: rest =>
    if tree.first.signal = .beginGroup then tree.elements ++ innerElements rest
      else innerElements rest

end

theorem elements_eq (tree : Tree) :
    tree.elements = tree.children.filter isElement ++ innerElements tree.children := by
  cases tree with
  | leaf token => rw [elements, children, innerElements]; rfl
  | node opening children closing => rw [elements]; rfl

theorem innerElements_eq (trees : List Tree) :
    innerElements trees =
      (trees.filter fun tree => tree.first.signal = .beginGroup).flatMap elements := by
  induction trees with
  | nil => rw [innerElements]; rfl
  | cons tree rest ih =>
    rw [innerElements, List.filter_cons, ih]
    by_cases opens : tree.first.signal = .beginGroup
    · simp [opens]
    · simp [opens]

/-- The versions of the guards that one side has for an element. -/
def tests (side : Side) (tree : Tree) : List Nat :=
  versionTests (side == .decoder && decide (0 < tree.first.version)) tree.wireReads
    tree.first.version.toNat

/-- The guards for a version that a message calls for: those of all elements that came with the
version. -/
def guardsFor (version : Nat) (tree : Tree) : Nat :=
  ((tree.elements.filter fun element => element.first.version.toNat = version).map wireReads).sum

theorem tests_encoder (tree : Tree) : tree.tests .encoder = [] := rfl

theorem flatten_subset_of_mem {trees : List Tree} {tree : Tree} (member : tree ∈ trees) :
    tree.flatten ⊆ flattenAll trees := by
  induction member with
  | head rest =>
    rw [flattenAll_cons]
    exact List.subset_append_left _ _
  | tail other _ ih =>
    rw [flattenAll_cons]
    exact List.subset_append_of_subset_right _ ih

theorem flattenAll_children_subset (tree : Tree) : flattenAll tree.children ⊆ tree.flatten := by
  cases tree with
  | leaf token => rw [children, flattenAll]; exact List.nil_subset _
  | node opening children closing =>
    rw [flatten]
    exact List.subset_append_of_subset_left _ (List.subset_cons_self _ _)

theorem plain_name {tree : Tree} (named : ∀ token ∈ tree.flatten, token.IsNamed) :
    Plain tree.first.name :=
  Name.plain_of_isIdentifier (named _ (by rw [flatten_eq_cons]; exact List.mem_cons_self)).1

end Span.Tree

namespace Layout

variable {trees : List Tree} {body : Body}

/-- Whatever stands in a body is an element of it. -/
theorem LaidOut.filter_isElement (laidOut : LaidOut trees body) :
    trees.filter Tree.isElement = trees := by
  cases laidOut with
  | intro split _ _ _ _ _ isFields isGroups isVarData =>
    rw [List.filter_eq_self, split, List.forall_mem_append, List.forall_mem_append,
      List.forall_mem_map, List.forall_mem_map, List.forall_mem_map]
    refine ⟨⟨fun item member => ?_, fun item member => ?_⟩, fun item member => ?_⟩
    · rw [Tree.isElement, (isFields item member).opens]
      decide
    · rw [Tree.isElement, (isGroups item member).opens]
      decide
    · rw [Tree.isElement, (isVarData item member).opens]
      decide

/-- The elements of a group are those behind its dimensions. -/
theorem IsGroup.elements_eq {tree : Tree} {layout : GroupLayout} (isGroup : IsGroup tree layout)
    (laidOut : LaidOut tree.children.tail layout.body) :
    tree.elements = tree.children.tail ++ Tree.innerElements tree.children.tail := by
  obtain ⟨dimensions, _, split, _, composite, _⟩ := isGroup.dimensions
  have other : dimensions.isElement = false := by
    rw [Tree.isElement, composite]
    decide
  rw [Tree.elements_eq, split, List.filter_cons_of_neg (by simp [other]), Tree.innerElements,
    if_neg (by rw [composite]; decide), List.tail_cons, laidOut.filter_isElement]

end Layout

/-! ### Bodies -/

namespace Source

variable {settings : Settings} (plain : settings.Plain)

include plain

theorem fieldAccessors_yields {tree : Tree} {layout : FieldLayout} (isField : IsField tree layout)
    (named : ∀ token ∈ tree.flatten, token.IsNamed) (side : Side) :
    Yields (fieldAccessors settings side layout) fun found =>
      found.1.Plain ∧ Guards 1 found.2 (tree.tests side) := by
  cases inside : tree.children with
  | nil => exact absurd (by rw [isField.type, inside, flattenAll]) isField.typed
  | cons type others =>
    have typeTokens : type.flatten ⊆ tree.flatten := by
      refine List.Subset.trans (Tree.flatten_subset_of_mem ?_) tree.flattenAll_children_subset
      rw [inside]
      exact List.mem_cons_self
    have found : Property.ofField layout =
        .ok ⟨some tree.first, type.first, type.flatten.tail ++ flattenAll others⟩ := by
      rw [Property.ofField, isField.type, isField.field, inside, Tree.flattenAll_cons,
        Tree.flatten_eq_cons]
      rfl
    have firstNamed : tree.first.IsNamed :=
      named _ (by rw [Tree.flatten_eq_cons]; exact List.mem_cons_self)
    have typeNamed : type.first.IsNamed :=
      named _ (typeTokens (by rw [Tree.flatten_eq_cons]; exact List.mem_cons_self))
    rw [fieldAccessors, found, Outcome.ok_bind]
    generalize type.flatten.tail ++ flattenAll others = rest
    have plainProperty : Property.Plain ⟨some tree.first, type.first, rest⟩ :=
      Property.plain_of_isNamed firstNamed typeNamed
    refine (accessors_yields plain plainProperty side .body).bind fun code guards =>
      .pure ⟨plainProperty, ?_⟩
    rw [Property.isGuarded, show (Scope.body == Scope.body) = true from rfl,
      Bool.and_true] at guards
    rw [Tree.tests, Tree.wireReads, isField.opens, inside]
    exact guards

/-- **The guards of a body** are those of what stands in it. -/
theorem bodyMembers_yields {trees : List Tree} {body : Body} (laidOut : LaidOut trees body)
    (named : ∀ token ∈ flattenAll trees, token.IsNamed) {path : String} (plainPath : Plain path)
    (side : Side) : Yields (bodyMembers settings body path side) fun code =>
      Guards 1 code (trees.flatMap (Tree.tests side)) := by
  cases laidOut with
  | @intro _ _ fields groups varData split _ _ fieldsFound groupsFound varDataFound isFields
      isGroups isVarData =>
    have known (tree : Tree) (member : tree ∈ trees) : ∀ token ∈ tree.flatten, token.IsNamed :=
      fun token inside => named token (Tree.flatten_subset_of_mem member inside)
    have fieldInside (item) (member : item ∈ fields) : item.1 ∈ trees := by
      rw [split]
      exact List.mem_append_left _ (List.mem_append_left _ (List.mem_map_of_mem member))
    have plainGroup (item) (member : item ∈ groups) : Plain item.2.group.name := by
      rw [(isGroups item member).group]
      refine Tree.plain_name (known item.1 ?_)
      rw [split]
      exact List.mem_append_left _ (List.mem_append_right _ (List.mem_map_of_mem member))
    have plainVarData (item) (member : item ∈ varData) : Plain item.2.varData.name := by
      rw [(isVarData item member).varData]
      refine Tree.plain_name (known item.1 ?_)
      rw [split]
      exact List.mem_append_right _ (List.mem_map_of_mem member)
    have fieldsYield :
        Yields ((fields.map Prod.snd).mapM (fieldAccessors settings side)) fun found =>
        List.Forall₂ (fun item found => Guards 1 found.2 (item.1.tests side)) fields found ∧
          ∀ result ∈ found, result.1.Plain := by
      have each (item) (member : item ∈ fields) :=
        fieldAccessors_yields plain (isFields item member) (known item.1 (fieldInside item member))
          side
      rw [List.mapM_map]
      exact (Yields.mapM fun item member => (each item member).mono fun _ both => both.2).and
        (Yields.forall_mapM fun item member => (each item member).mono fun _ both => both.1)
    have groupsYield : Yields ((groups.map Prod.snd).mapM (groupAccessors settings path side))
        (List.Forall₂ (fun item code => Guards 1 code (item.1.tests side)) groups) := by
      rw [List.mapM_map]
      refine .mapM fun item member => ?_
      have isGroup := isGroups item member
      rw [Tree.tests, Tree.wireReads, isGroup.opens, ← isGroup.group]
      exact groupAccessors_yields plain plainPath (plainGroup item member) side
    have varDataYield : Yields ((varData.map Prod.snd).mapM (varDataAccessors settings side))
        (List.Forall₂ (fun item code => Guards 1 code (item.1.tests side)) varData) := by
      rw [List.mapM_map]
      refine .mapM fun item member => ?_
      have isVarData := isVarData item member
      rw [Tree.tests, Tree.wireReads, isVarData.opens, ← isVarData.varData]
      exact varDataAccessors_yields plain (plainVarData item member) side
    unfold bodyMembers
    rw [fieldsFound, Outcome.ok_bind]
    refine fieldsYield.bind fun results ⟨fieldGuards, plainFields⟩ => ?_
    rw [groupsFound, Outcome.ok_bind]
    refine groupsYield.bind fun groupCode groupGuards => ?_
    rw [varDataFound, Outcome.ok_bind]
    refine varDataYield.bind fun varDataCode varDataGuards => ?_
    have guards :
        Guards 1 ((results.map Prod.snd).flatten ++ groupCode.flatten ++ varDataCode.flatten)
          (trees.flatMap (Tree.tests side)) := by
      rw [split, List.flatMap_append, List.flatMap_append, List.flatMap_map, List.flatMap_map,
        List.flatMap_map]
      have fieldCode : List.Forall₂ (fun item code => Guards 1 code (item.1.tests side)) fields
          (results.map Prod.snd) := List.forall₂_map_right_iff.mpr fieldGuards
      exact ((Guards.flatten fieldCode).append (.flatten groupGuards)).append
        (.flatten varDataGuards)
    cases side with
    | encoder => exact .pure (guards.followed free_nil)
    | decoder =>
      refine (bodyRender_yields plain ?_ ?_ ?_).bind fun render free => .pure (guards.followed free)
      · exact List.forall_mem_map.mpr plainFields
      · exact List.forall_mem_map.mpr plainGroup
      · exact List.forall_mem_map.mpr plainVarData

/-- The type of a group has the guards of its body. -/
theorem groupType_yields {layout : GroupLayout} {trees : List Tree}
    (laidOut : LaidOut trees layout.body) (named : ∀ token ∈ flattenAll trees, token.IsNamed)
    (group : Plain layout.group.name) {path : String} (plainPath : Plain path) (side : Side) :
    Yields (groupType settings layout path side) fun code =>
      Guards 2 code (trees.flatMap (Tree.tests side)) := by
  have typeName := plain_groupName plainPath group side
  refine (Yields.any _).bind fun blockLength _ => ?_
  refine (Yields.any _).bind fun numInGroup _ => ?_
  refine (literal_yields _ _ _).bind fun length plainLength => ?_
  have acting : Free (actingFunctions side "block_length" blockLength) :=
    actingFunctions_free side (mild_of_spelled ⟨_, rfl, rfl⟩) (foreign_of_spelled ⟨_, rfl, rfl⟩)
      blockLength
  have members := bodyMembers_yields plain laidOut named (plain_groupPath plainPath group) side
  cases side
  case' decoder =>
    refine (Yields.pure (groupReads_free layout blockLength numInGroup)).bind fun opening free => ?_
  case' encoder =>
    refine (groupWrites_yields layout blockLength numInGroup).bind fun opening free => ?_
  all_goals
    refine members.bind fun members guards => .pure ?_
    refine .preceded (.spaced (.block (Mild.inert ?_) (.followed (.preceded guards ?_) ?_))) ?_
    · simp (disch := constructor; rfl; decide) [typeName]
    · simp (disch := constructor; rfl; decide) [plainLength, free, acting]
    · simp
    · exact groupStructure_free typeName blockLength _

/-- **The guards of the groups of a body** are those of the bodies of all groups in it, at every
depth. -/
theorem groupTypes_yields {trees : List Tree} {body : Body} (laidOut : LaidOut trees body)
    (named : ∀ token ∈ flattenAll trees, token.IsNamed) {path : String} (plainPath : Plain path)
    (side : Side) : Yields (groupTypes settings body path side) fun code =>
      Guards 2 code ((Tree.innerElements trees).flatMap (Tree.tests side)) := by
  induction laidOut generalizing path with
  | @intro trees body fields groups varData split _ _ _ groupsFound _ isFields isGroups isVarData _
      _ inside ih =>
    have inner : Tree.innerElements trees = groups.flatMap fun item => item.1.elements := by
      rw [Tree.innerElements_eq, split, filter_split isFields isGroups isVarData]
      simp [List.flatMap_map]
    have each (item) (member : item ∈ groups) : Yields (do
        let type ← groupType settings item.2 path side
        let nested ← groupTypes settings item.2.body (groupPath path item.2.group) side
        pure (type ++ nested)) fun code => Guards 2 code (item.1.elements.flatMap
          (Tree.tests side)) := by
      have known : ∀ token ∈ item.1.flatten, token.IsNamed := fun token found => by
        refine named token (Tree.flatten_subset_of_mem ?_ found)
        rw [split]
        exact List.mem_append_left _ (List.mem_append_right _ (List.mem_map_of_mem member))
      have behind : ∀ token ∈ flattenAll item.1.children.tail, token.IsNamed :=
          fun token found => by
        obtain ⟨dimensions, _, start, _⟩ := (isGroups item member).dimensions
        refine known token (item.1.flattenAll_children_subset ?_)
        rw [start, Tree.flattenAll_cons]
        exact List.mem_append_right _ found
      have group : Plain item.2.group.name := by
        rw [(isGroups item member).group]
        exact Tree.plain_name known
      refine (groupType_yields plain (inside item member) behind group plainPath side).bind
        fun type one => ?_
      refine (ih item member behind (plain_groupPath plainPath group)).bind
        fun nested two => .pure ?_
      rw [(isGroups item member).elements_eq (inside item member), List.flatMap_append]
      exact one.append two
    rw [groupTypes_eq, groupsFound, Outcome.ok_bind, List.mapM_map]
    refine (Yields.mapM each).bind fun types related => .pure ?_
    rw [inner, List.flatMap_assoc]
    exact .flatten related

/-- **The guards of a message** are those of its elements, in the groups inside it as well. -/
theorem messageUnit_yields (schema : Schema) {header : String} (plainHeader : Plain header)
    {tree : Tree} (isMessage : IsMessage tree) (named : ∀ token ∈ tree.flatten, token.IsNamed)
    (side : Side) :
    Yields (messageUnit settings schema header tree.first tree.flatten side) fun code =>
      Guards 2 code (tree.elements.flatMap (Tree.tests side)) := by
  obtain ⟨body, found, laidOut⟩ := isMessage.laidOut
  have inside : ∀ token ∈ flattenAll tree.children, token.IsNamed :=
    fun token member => named token (tree.flattenAll_children_subset member)
  have plainName := Tree.plain_name named
  have plainPath : Plain (Name.codecName tree.first.name "") :=
    (plain_append _ _).mpr ⟨Name.plain_pascalCase plainName, plain_literal rfl⟩
  have typeName := plain_codecName plainName side
  unfold messageUnit
  rw [found, Outcome.ok_bind]
  refine (Yields.any _).bind fun types _ => ?_
  refine (literal_yields _ _ _).bind fun blockLength plainLength => ?_
  refine (literal_yields _ _ _).bind fun templateId plainTemplate => ?_
  refine (schemaConstants_yields schema).bind fun schemaLines freeSchema => ?_
  refine (bodyMembers_yields plain laidOut inside plainPath side).bind
    fun members memberGuards => ?_
  refine (groupTypes_yields plain laidOut inside plainPath side).bind
    fun groups groupGuards => .pure ?_
  have acting : Free (actingFunctions side "acting_block_length" types.blockLength) :=
    actingFunctions_free side (mild_of_spelled ⟨_, rfl, rfl⟩) (foreign_of_spelled ⟨_, rfl, rfl⟩) _
  rw [Tree.elements_eq, laidOut.filter_isElement, List.flatMap_append]
  refine .followed (.append (.followed
        (.preceded (.spaced (.block (Mild.inert ?_) (.followed (.preceded memberGuards ?_) ?_))) ?_)
        (messageDisplay_free plainName side)) groupGuards) ?_
  · simp (disch := constructor; rfl; decide) [typeName]
  · cases side with
    | decoder =>
      simp (disch := constructor; rfl; decide) [plainLength, plainTemplate, freeSchema, acting,
        messageReads_free]
    | encoder =>
      simp (disch := constructor; rfl; decide) [plainLength, plainTemplate, freeSchema, acting,
        messageWrites_free (plain_codecName plainHeader .encoder)]
  · cases side with
    | decoder => exact messageRender_free _
    | encoder => exact free_nil
  · exact (free_append _ _).mpr ⟨prelude_free plain, messageStructure_free types typeName side⟩
  · split
    · exact messageInterfaces_free plain typeName side
    · exact free_nil

end Source

end Sbe
