import Sbe.Proofs.Accepted
import Sbe.Proofs.Nesting
import Sbe.Token.Build

/-!
**Every reference to a type is resolved.**

A composite, an enum or a set that stands right inside a field or a composite refers to a type by
its name. Verification collects these references on its way through the types and the messages, and
compares them with the names that are defined only at the end. Here they are the subtrees of the
streams, at any depth.

* `Tree.Contains`: the parts of a tree;
* `mem_typeNames_iff`: what is collected from a stream are the references among its parts;
* `mem_definedNames_iff`: a name that is defined is that of one type, the one found by it, or the
  header's;
* `verify_iff_references_resolve`: so a schema is accepted exactly when its streams are and all
  references of its types and messages resolve. The references of the header are not among them.
-/

namespace Sbe

namespace Span

/-! ### Parts of a tree -/

namespace Tree

theorem induct {motive : Tree → Prop} (leaf : ∀ token, motive (.leaf token))
    (node : ∀ opening children closing, (∀ child ∈ children, motive child) →
      motive (.node opening children closing)) : ∀ tree, motive tree
  | .leaf token => leaf token
  | .node opening children closing =>
    node opening children closing fun child _ => induct leaf node child

/-- The trees that are parts of a tree: the tree itself, and those of its children. -/
inductive Contains : Tree → Tree → Prop where
  | self (tree : Tree) : Contains tree tree
  | child {tree child part : Tree} (member : child ∈ tree.children) (inside : Contains child part) :
      Contains tree part

/-- A tree that refers to a type: it opens a composite, an enum or a set right inside a field or a
composite. -/
structure RefersIn (inner outer : Tree) : Prop where
  inside : inner ∈ outer.children
  opens : inner.first.signal ∈ [Signal.beginComposite, .beginEnum, .beginSet]
  parent : outer.first.signal ∈ [Signal.beginField, .beginComposite]

theorem starts_eq (parent : Option Signal) (tree : Tree) :
    tree.starts parent =
      (parent, tree.first) :: startsAll (some tree.first.signal) tree.children := by
  cases tree with
  | leaf token => rw [starts, first, children, startsAll]
  | node opening children closing => rw [starts, first, Tree.children]

theorem mem_startsAll_iff {parent : Option Signal} {trees : List Tree}
    {start : Option Signal × Token} :
    start ∈ startsAll parent trees ↔ ∃ tree ∈ trees, start ∈ tree.starts parent := by
  induction trees with
  | nil => simp [startsAll]
  | cons tree rest ih => simp [startsAll, ih]

theorem Contains.mem_startsAll {tree outer : Tree} (part : tree.Contains outer) {inner : Tree}
    (inside : inner ∈ outer.children) :
    (some outer.first.signal, inner.first) ∈ startsAll (some tree.first.signal) tree.children := by
  induction part with
  | self tree =>
    refine mem_startsAll_iff.mpr ⟨inner, inside, ?_⟩
    rw [starts_eq]
    exact List.mem_cons_self
  | @child tree child outer member _ ih =>
    refine mem_startsAll_iff.mpr ⟨child, member, ?_⟩
    rw [starts_eq]
    exact List.mem_cons_of_mem _ (ih inside)

theorem exists_contains_of_mem_startsAll {start : Option Signal × Token} (tree : Tree)
    (member : start ∈ startsAll (some tree.first.signal) tree.children) :
    ∃ outer inner, tree.Contains outer ∧ inner ∈ outer.children ∧
      start = (some outer.first.signal, inner.first) := by
  induction tree using induct with
  | leaf token =>
    rw [children, startsAll] at member
    cases member
  | node opening children closing ih =>
    obtain ⟨child, inside, member⟩ := mem_startsAll_iff.mp member
    rw [starts_eq, List.mem_cons] at member
    rcases member with rfl | deeper
    · exact ⟨_, child, .self _, inside, rfl⟩
    · obtain ⟨outer, inner, part, innerMember, rfl⟩ := ih child inside deeper
      exact ⟨outer, inner, .child inside part, innerMember, rfl⟩

/-- What names a type in a tree are the references among its parts, at any depth. -/
theorem mem_typeNames_iff {tree : Tree} {token : Token} :
    token ∈ tree.typeNames ↔
      ∃ outer inner : Tree, tree.Contains outer ∧ inner.RefersIn outer ∧ inner.first = token := by
  rw [typeNames_eq, Span.typeNames, List.mem_map]
  simp only [List.mem_filter, decide_eq_true_eq]
  constructor
  · rintro ⟨start, ⟨member, names⟩, rfl⟩
    obtain ⟨outer, inner, part, inside, rfl⟩ := exists_contains_of_mem_startsAll tree member
    refine ⟨outer, inner, part, ⟨inside, names.1, ?_⟩, rfl⟩
    simpa using names.2
  · rintro ⟨outer, inner, part, refers, rfl⟩
    refine ⟨_, ⟨part.mem_startsAll refers.inside, refers.opens, ?_⟩, rfl⟩
    simpa using refers.parent

end Tree

end Span

open Sbe.Span (Tree)

/-- The references that are collected from a stream are those of its tree. -/
theorem mem_foundReferences_iff (list : TokenList) {tree : Tree} (nested : tree.WellNested)
    {token : Token} : token ∈ foundReferences list tree.flatten ↔
      ∃ outer inner : Tree, tree.Contains outer ∧ inner.RefersIn outer ∧ inner.first = token := by
  rw [foundReferences, Span.check_flatten list nested]
  exact Tree.mem_typeNames_iff

namespace Schema

/-! ### Definitions -/

/-- A name that exactly one type has, which is the type found under it, or that the header has. -/
def Resolves (schema : Schema) (name : String) : Prop :=
  (∃ definition, schema.types.filter (fun tokens => definedName tokens == some name) =
      [definition] ∧ schema.type? name = some definition) ∨ schema.headerName? = some name

/-- Where no name is defined twice, a name that is defined is defined once. -/
theorem exists_filter_eq_singleton {types : List (List Token)} {name : String}
    (unique : (types.filterMap definedName).Nodup) (member : name ∈ types.filterMap definedName) :
    ∃ definition, types.filter (fun tokens => definedName tokens == some name) = [definition] := by
  induction types with
  | nil => cases member
  | cons tokens rest ih =>
    by_cases defines : definedName tokens = some name
    · rw [List.filterMap_cons_some defines, List.nodup_cons] at unique
      have others : rest.filter (fun tokens => definedName tokens == some name) = [] := by
        rw [List.filter_eq_nil_iff]
        intro other inside same
        exact unique.1 (List.mem_filterMap.mpr ⟨other, inside, beq_iff_eq.mp same⟩)
      rw [List.filter_cons_of_pos (by simpa using defines), others]
      exact ⟨tokens, rfl⟩
    · rw [List.filter_cons_of_neg (by simpa using defines)]
      obtain ⟨other, inside, same⟩ := List.mem_filterMap.mp member
      refine ih (unique.sublist ?_) (List.mem_filterMap.mpr ⟨other, ?_, same⟩)
      · exact (List.sublist_cons_self tokens rest).filterMap definedName
      · rcases List.mem_cons.mp inside with rfl | later
        · exact absurd same defines
        · exact later

theorem mem_definedNames_iff {schema : Schema} (unique : (schema.types.filterMap definedName).Nodup)
    {name : String} : name ∈ schema.definedNames ↔ schema.Resolves name := by
  rw [definedNames, List.mem_append, Option.mem_toList, Resolves]
  refine or_congr ⟨fun member => ?_, ?_⟩ Iff.rfl
  · obtain ⟨definition, single⟩ := exists_filter_eq_singleton unique member
    refine ⟨definition, single, ?_⟩
    rw [type?, ← List.head?_filter, single]
    rfl
  · rintro ⟨definition, single, _⟩
    have member : definition ∈
        schema.types.filter fun tokens => definedName tokens == some name := by
      rw [single]
      exact List.mem_singleton_self definition
    obtain ⟨inside, defines⟩ := List.mem_filter.mp member
    exact List.mem_filterMap.mpr ⟨definition, inside, beq_iff_eq.mp defines⟩

/-! ### Verification -/

/-- Streams that are accepted by themselves, with types under different names. -/
structure StreamsAccepted (schema : Schema) : Prop where
  header : schema.HeaderAccepted
  types : ∀ tokens ∈ schema.types, TypeAccepted tokens
  unique : (schema.types.filterMap definedName).Nodup
  messages : ∀ tokens ∈ schema.messages, MessageAccepted tokens

/-- A stream whose tree has no reference, at any depth, to a name that is not defined. -/
def IsClosed (schema : Schema) (tokens : List Token) : Prop :=
  ∃ tree : Tree, tree.WellNested ∧ tree.flatten = tokens ∧
    ∀ outer inner : Tree, tree.Contains outer → inner.RefersIn outer →
      schema.Resolves inner.first.typeName

theorem isClosed_iff {schema : Schema} (unique : (schema.types.filterMap definedName).Nodup)
    {list : TokenList} {tokens : List Token}
    (nested : Span.check list tokens = .ok (foundReferences list tokens)) :
    schema.IsClosed tokens ↔
      ∀ token ∈ foundReferences list tokens, token.typeName ∈ schema.definedNames := by
  simp only [mem_definedNames_iff unique]
  constructor
  · rintro ⟨tree, treeNested, rfl, closed⟩ token member
    obtain ⟨outer, inner, part, refers, rfl⟩ := (mem_foundReferences_iff list treeNested).mp member
    exact closed outer inner part refers
  · intro closed
    obtain ⟨tree, treeNested, rfl, _⟩ := Span.wellNested_of_check nested
    refine ⟨tree, treeNested, rfl, fun outer inner part refers => closed _ ?_⟩
    exact (mem_foundReferences_iff list treeNested).mpr ⟨outer, inner, part, refers, rfl⟩

/-- **Every reference of an accepted schema resolves**, wherever in a type or a message it stands: a
schema is accepted exactly when its streams are accepted by themselves and every composite, enum or
set right inside a field or a composite has the name of exactly one type, or of the header. What the
header itself refers to is not tested. -/
theorem verify_iff_references_resolve (schema : Schema) :
    schema.verify = .ok () ↔ schema.StreamsAccepted ∧
      ∀ tokens ∈ schema.types ++ schema.messages, schema.IsClosed tokens := by
  rw [verify_eq_ok_iff]
  constructor
  · rintro ⟨header, fields, types, unique, messages, closed⟩
    refine ⟨⟨⟨header, fields⟩, types, unique, messages⟩, fun tokens member => ?_⟩
    rcases List.mem_append.mp member with isType | isMessage
    · refine (isClosed_iff unique (types tokens isType).nested).mpr
        fun token found => closed token ?_
      exact List.mem_append_left _ (List.mem_flatMap.mpr ⟨tokens, isType, found⟩)
    · refine (isClosed_iff unique (messages tokens isMessage).1.nested).mpr fun token found =>
        closed token ?_
      exact List.mem_append_right _ (List.mem_flatMap.mpr ⟨tokens, isMessage, found⟩)
  · rintro ⟨⟨⟨header, fields⟩, types, unique, messages⟩, closed⟩
    refine ⟨header, fields, types, unique, messages, fun token member => ?_⟩
    rcases List.mem_append.mp member with ofType | ofMessage
    · obtain ⟨tokens, inside, found⟩ := List.mem_flatMap.mp ofType
      exact (isClosed_iff unique (types tokens inside).nested).mp
        (closed tokens (List.mem_append_left _ inside)) token found
    · obtain ⟨tokens, inside, found⟩ := List.mem_flatMap.mp ofMessage
      exact (isClosed_iff unique (messages tokens inside).1.nested).mp
        (closed tokens (List.mem_append_right _ inside)) token found

/-- A header with a color, which is no type of the schema. -/
def colored : Schema where
  packageName := "colored"
  id := 1
  header := Build.composite "messageHeader" 0 9
    [[Build.value "blockLength" 0 (.of .uint16)], [Build.value "templateId" 2 (.of .uint16)],
      [Build.value "schemaId" 4 (.of .uint16)], [Build.value "version" 6 (.of .uint16)],
      Build.enumeration "Color" 8 (.of .uint8) [("red", .uint 1)]]

/-- The schema is accepted, although its header refers to a type that is not defined. -/
theorem colored_header_not_closed :
    colored.verify = .ok () ∧ ¬ colored.IsClosed colored.header := by
  have verified : colored.verify = .ok () := Outcome.eq_ok_of_isOk (by decide +kernel)
  have accepted := verify_eq_ok_iff.mp verified
  refine ⟨verified, fun closed => ?_⟩
  have known := (isClosed_iff accepted.unique accepted.header.nested).mp closed
  revert known
  decide +kernel

end Schema

end Sbe
