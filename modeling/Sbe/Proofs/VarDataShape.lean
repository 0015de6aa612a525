import Sbe.Proofs.CompleteLayout

/-!
**Shapes of fields of variable length.**

The length and the data of a field of variable length are taken by their positions behind its first
token, and nothing asks whether a composite holds them. So they stand in one of two places, and an
element that encloses both alone is there exactly when the second token says so.

* `Body.Contains`: a body and the bodies of its groups, at every depth;
* `HasVarData`: the trees of fields of variable length, in trees and in their groups at every depth;
* `IsVarData.located`: the two places where length and data stand;
* `IsVarData.isComposite_iff`: when they are the first members of the one composite inside;
* `Schema.located_of_verify`: both, for every field of variable length of an accepted schema.
-/

namespace Sbe

open Sbe.Span (Tree)
open Sbe.Span.Tree (flattenAll)

open Layout

/-- A body contains itself and what the bodies of its groups contain. -/
inductive Body.Contains : Body → Body → Prop where
  | self (body : Body) : body.Contains body
  | group {body inner : Body} {layouts : List GroupLayout} {layout : GroupLayout}
      (found : splitGroups 0 body.groups = .ok layouts) (member : layout ∈ layouts)
      (inside : Body.Contains layout.body inner) : body.Contains inner

/-- A body, or the body of one of its groups, has a tree among its fields of variable length, and
the split of these fields gives a layout for it. -/
def Body.Reports (body : Body) (tree : Tree) (layout : VarDataLayout) : Prop :=
  ∃ (inner : Body) (varData : List (Tree × VarDataLayout)), body.Contains inner ∧
    flattenAll (varData.map Prod.fst) = inner.varData ∧
    splitVarData 0 inner.varData = .ok (varData.map Prod.snd) ∧ (tree, layout) ∈ varData

namespace Layout

/-- The trees of fields of variable length among trees, and inside the groups among them. -/
inductive HasVarData : List Tree → Tree → Prop where
  | here {trees : List Tree} {tree : Tree} (member : tree ∈ trees)
      (opens : tree.first.signal = .beginVarData) : HasVarData trees tree
  | group {trees : List Tree} {group tree : Tree} (member : group ∈ trees)
      (opens : group.first.signal = .beginGroup) (inside : HasVarData group.children tree) :
      HasVarData trees tree

/-- Where the length and the data stand: they are the first members of the first element, or they
follow a single token. -/
inductive Located (tree : Tree) (layout : VarDataLayout) : Prop where
  | enclosed {element : Tree} {members rest : List Tree}
    (children : tree.children = element :: rest)
    (inside : element.children = .leaf layout.length :: .leaf layout.data :: members)
  | following {lead : Token} {rest : List Tree}
      (children : tree.children = .leaf lead :: .leaf layout.length :: .leaf layout.data :: rest)

/-- A field of variable length is one composite whose first two members are the length and the
data. -/
def IsComposite (tree : Tree) (layout : VarDataLayout) : Prop :=
  ∃ (composite : Tree) (members : List Tree), tree.children = [composite] ∧
    composite.first.signal = .beginComposite ∧
    composite.children = .leaf layout.length :: .leaf layout.data :: members

/-- The second token of a tree opens a composite, and spans all tokens but the first and the
last. -/
def SpansComposite (tree : Tree) : Prop :=
  ∃ token, tree.flatten[1]? = some token ∧ token.signal = .beginComposite ∧
    token.span + 2 = tree.first.span

/-! ### Places -/

/-- An encoding at a position up to a token that closes an element stands in front of that token. -/
theorem getElem?_of_encoding {tokens after : List Token} {closing token : Token}
    {opening : Signal} (closes : opening.closing? = some closing.signal) {index : Nat}
    (reached : index ≤ tokens.length) (found : (tokens ++ closing :: after)[index]? = some token)
    (single : token.signal = .encoding) : tokens[index]? = some token := by
  obtain before | atEnd := Nat.lt_or_eq_of_le reached
  · rwa [List.getElem?_append_left before] at found
  · rw [atEnd, List.getElem?_append_right (Nat.le_refl _), Nat.sub_self,
      List.getElem?_cons_zero] at found
    cases found
    rw [single] at closes
    cases opening <;> cases closes

/-- Trees whose stream starts with two encodings start with them. -/
theorem eq_leaf_cons_cons {trees : List Tree} (nested : ∀ tree ∈ trees, tree.WellNested)
    {length data : Token} (first : (flattenAll trees)[0]? = some length)
    (second : (flattenAll trees)[1]? = some data) (isLength : length.signal = .encoding)
    (isData : data.signal = .encoding) :
    trees = .leaf length :: .leaf data :: trees.tail.tail := by
  have leading := Tree.eq_leaf_cons nested first isLength
  rw [leading, Tree.flattenAll_cons] at second
  have later : ∀ tree ∈ trees.tail, tree.WellNested :=
    fun tree member => nested tree (List.mem_of_mem_tail member)
  rw [← Tree.eq_leaf_cons later second isData]
  exact leading

/-- The length and the data of a field of variable length stand in one of two places. -/
theorem IsVarData.located {tree : Tree} {layout : VarDataLayout} (isVarData : IsVarData tree layout)
    (nested : tree.WellNested) : Located tree layout := by
  obtain ⟨lengthFound, isLength⟩ := isVarData.length
  obtain ⟨dataFound, isData⟩ := isVarData.data
  obtain ⟨closing, closes, tokens, _⟩ := nested.flatten_of_opens (by rw [isVarData.opens]; rfl)
  have inside := nested.children
  rw [tokens, List.getElem?_cons_succ] at lengthFound dataFound
  have reached := (List.getElem?_eq_some_iff.mp dataFound).1
  rw [List.length_append, List.length_singleton] at reached
  replace lengthFound := getElem?_of_encoding closes (by omega) lengthFound isLength
  replace dataFound := getElem?_of_encoding closes (by omega) dataFound isData
  cases children : tree.children with
  | nil =>
    rw [children, flattenAll] at lengthFound
    cases lengthFound
  | cons element rest =>
    rw [children] at inside
    obtain ⟨first, later⟩ := List.forall_mem_cons.mp inside
    rw [children, Tree.flattenAll_cons] at lengthFound dataFound
    cases first with
    | @leaf lead =>
      have others := eq_leaf_cons_cons later lengthFound dataFound isLength isData
      rw [others] at children
      exact .following children
    | @node opening ending members ends _ _ within =>
      rw [Tree.flatten_node, List.cons_append, List.getElem?_cons_succ, List.append_assoc,
        List.singleton_append] at lengthFound dataFound
      have first := getElem?_of_encoding ends (Nat.zero_le _) lengthFound isLength
      have filled := (List.getElem?_eq_some_iff.mp first).1
      have second := getElem?_of_encoding ends filled dataFound isData
      exact .enclosed children (eq_leaf_cons_cons within first second isLength isData)

/-- A field of variable length is a composite of its length and data exactly when its second token
says that it opens a composite up to the end of the field. -/
theorem IsVarData.isComposite_iff {tree : Tree} {layout : VarDataLayout}
    (isVarData : IsVarData tree layout) (nested : tree.WellNested) :
    IsComposite tree layout ↔ SpansComposite tree := by
  obtain ⟨closing, _, tokens, span⟩ := nested.flatten_of_opens (by rw [isVarData.opens]; rfl)
  have inside := nested.children
  constructor
  · rintro ⟨composite, members, children, opens, _⟩
    rw [children] at inside
    have size := (List.forall_mem_singleton.mp inside).length_flatten_of_opens (by rw [opens]; rfl)
    obtain ⟨_, _, _, counted⟩ :=
      (List.forall_mem_singleton.mp inside).flatten_of_opens (by rw [opens]; rfl)
    rw [children, Tree.flattenAll_cons, flattenAll, List.append_nil] at span
    refine ⟨composite.first, ?_, opens, by omega⟩
    rw [tokens, children, Tree.flattenAll_cons, Tree.flatten_eq_cons]
    rfl
  · rintro ⟨token, second, opens, spans⟩
    rw [tokens, List.getElem?_cons_succ] at second
    cases isVarData.located nested with
    | @enclosed element members rest children within =>
      rw [children] at inside
      rw [children, Tree.flattenAll_cons, Tree.flatten_eq_cons] at second
      cases second
      obtain ⟨_, _, _, counted⟩ :=
        (inside element List.mem_cons_self).flatten_of_opens (by rw [opens]; rfl)
      have size := (inside element List.mem_cons_self).length_flatten_of_opens (by rw [opens]; rfl)
      rw [children, Tree.flattenAll_cons, List.length_append] at span
      -- The composite counts all tokens inside, so no tree follows it.
      cases rest with
      | nil => exact ⟨element, members, children, opens, within⟩
      | cons other rest =>
        rw [Tree.flattenAll_cons, Tree.flatten_eq_cons other, List.cons_append,
          List.length_cons] at span
        omega
    | @following lead rest children =>
      rw [children] at inside
      rw [children, Tree.flattenAll_cons] at second
      cases second
      cases inside _ List.mem_cons_self with
      | leaf single =>
        rw [opens] at single
        cases single

/-! ### Bodies at every depth -/

/-- Fields of variable length in a group stand behind its dimensions. -/
theorem IsGroup.hasVarData_tail {group tree : Tree} {layout : GroupLayout}
    (isGroup : IsGroup group layout) (has : HasVarData group.children tree) :
    HasVarData group.children.tail tree := by
  obtain ⟨dimensions, _, children, _, composite, _⟩ := isGroup.dimensions
  have behind : ∀ {other : Tree}, other ∈ group.children →
      other.first.signal ≠ .beginComposite → other ∈ group.children.tail := by
    intro other member different
    rw [children] at member
    obtain rfl | later := List.mem_cons.mp member
    · exact absurd composite different
    · exact later
  cases has with
  | here member opens => exact .here (behind member (by rw [opens]; decide)) opens
  | group member opens inside => exact .group (behind member (by rw [opens]; decide)) opens inside

/-- Every tree of a field of variable length in a body that is laid out has its layout there. -/
theorem LaidOut.reports {trees : List Tree} {body : Body} (laidOut : LaidOut trees body)
    {tree : Tree} (has : HasVarData trees tree) :
    ∃ layout, body.Reports tree layout ∧ IsVarData tree layout := by
  induction laidOut generalizing tree with
  | @intro trees body fields groups varData split _ runs _ groupsFound varDataFound isFields
      isGroups isVarData _ _ _ ih =>
    have among : ∀ {other : Tree}, other ∈ trees →
        (∃ layout, (other, layout) ∈ fields) ∨ (∃ layout, (other, layout) ∈ groups) ∨
          ∃ layout, (other, layout) ∈ varData := by
      intro other member
      simpa [split, or_assoc] using member
    cases has with
    | here member opens =>
      obtain ⟨layout, found⟩ | ⟨layout, found⟩ | ⟨layout, found⟩ := among member
      · rw [(isFields _ found).opens] at opens
        cases opens
      · rw [(isGroups _ found).opens] at opens
        cases opens
      · exact ⟨layout, ⟨body, varData, .self body, by rw [runs], varDataFound, found⟩,
          isVarData _ found⟩
    | group member opens inside =>
      obtain ⟨layout, found⟩ | ⟨layout, found⟩ | ⟨layout, found⟩ := among member
      · rw [(isFields _ found).opens] at opens
        cases opens
      · obtain ⟨inner, ⟨within, others, contains, rest⟩, isInner⟩ :=
          ih _ found ((isGroups _ found).hasVarData_tail inside)
        exact ⟨inner,
          ⟨within, others, .group groupsFound (List.mem_map_of_mem found) contains, rest⟩, isInner⟩
      · rw [(isVarData _ found).opens] at opens
        cases opens

/-- The trees of fields of variable length inside well-nested trees are well nested. -/
theorem HasVarData.nested {trees : List Tree} {tree : Tree} (has : HasVarData trees tree)
    (nested : ∀ tree ∈ trees, tree.WellNested) : tree.WellNested := by
  induction has with
  | here member => exact nested _ member
  | group member _ _ ih => exact ih (nested _ member).children

end Layout

namespace Schema

/-- **Places of lengths and data.** In every message of a verified schema, every field of variable
length at every depth of groups has a layout that the split of its body reports, whose length and
data are encodings in one of two places. They are the first members of the one composite in the
field exactly when the second token of the field opens a composite up to the end of the field. -/
theorem located_of_verify {schema : Schema} (verified : schema.verify = .ok ())
    {tokens : List Token} (member : tokens ∈ schema.messages) :
    ∃ (message : Tree) (body : Body), message.WellNested ∧ message.flatten = tokens ∧
      decomposeMessage tokens = .ok body ∧
      ∀ tree, HasVarData message.children tree → ∃ layout, body.Reports tree layout ∧
        layout.length.signal = .encoding ∧ layout.data.signal = .encoding ∧ Located tree layout ∧
        (IsComposite tree layout ↔ SpansComposite tree) := by
  obtain ⟨message, isMessage, rfl⟩ :=
    exists_isMessage ((verify_eq_ok_iff.mp verified).messages tokens member)
  obtain ⟨body, found, laidOut⟩ := isMessage.laidOut
  refine ⟨message, body, isMessage.nested, rfl, found, fun tree has => ?_⟩
  obtain ⟨layout, reports, isVarData⟩ := laidOut.reports has
  have nested := has.nested isMessage.nested.children
  exact ⟨layout, reports, isVarData.length.2, isVarData.data.2, isVarData.located nested,
    isVarData.isComposite_iff nested⟩

theorem convoy_located : convoy.verify = .ok () ∧
    ∃ tokens ∈ convoy.messages, ∃ (message : Tree) (body : Body), message.WellNested ∧
      message.flatten = tokens ∧ decomposeMessage tokens = .ok body ∧
      ∀ tree, HasVarData message.children tree → ∃ layout, body.Reports tree layout ∧
        layout.length.signal = .encoding ∧ layout.data.signal = .encoding ∧ Located tree layout ∧
        (IsComposite tree layout ↔ SpansComposite tree) := by
  have verified : convoy.verify = .ok () := Outcome.eq_ok_of_isOk (by decide +kernel)
  have member : convoy.messages[0] ∈ convoy.messages := List.getElem_mem _
  exact ⟨verified, _, member, located_of_verify verified member⟩

/-- A message with a note whose length and data follow a single value. -/
def ledNote : Schema where
  packageName := "led"
  id := 1
  header := Build.messageHeader
  messages := [Build.message "Memo" 1 0
    [Build.varData "note" 2 0 [Build.value "lead" 0 (.of .uint8),
      Build.value "length" 0 (.of .uint32), Build.value "varData" 4 (.of .uint8)]]]

/-- A schema can be verified although the second token of a field of variable length opens
nothing. -/
theorem ledNote_not_composite : ledNote.verify = .ok () ∧
    ∃ message tree : Tree, message.WellNested ∧ ledNote.messages = [message.flatten] ∧
      HasVarData message.children tree ∧
      ∃ token, tree.flatten[1]? = some token ∧ token.signal = .encoding := by
  refine ⟨Outcome.eq_ok_of_isOk (by decide +kernel),
    .node _ [.node _ [.leaf _, .leaf _, .leaf _] _] _, _, ?_, rfl, .here List.mem_cons_self rfl, _,
    rfl, rfl⟩
  refine .node rfl rfl rfl (List.forall_mem_singleton.mpr (.node rfl rfl rfl ?_))
  exact List.forall_mem_cons.mpr ⟨.leaf rfl rfl,
    List.forall_mem_cons.mpr ⟨.leaf rfl rfl, List.forall_mem_singleton.mpr (.leaf rfl rfl)⟩⟩

end Schema

end Sbe
