import Mathlib.Data.List.Basic
import Sbe.Proofs.Accepted
import Sbe.Proofs.Nesting
import Sbe.Token.Build

/-!
**Descriptions of schemas.**

A description says what a schema is made of, as a tree: types inside types, groups inside groups.
Its token streams are put together by the building functions alone. Each of these streams is the
stream of a well-nested tree, and the types that the tree names are those that the description uses.

* `TypeDescription`, `GroupDescription`, `MessageDescription`: descriptions, with their `tokens`;
* `flatten_tree`, `wellNested_tree`: the tree of a description;
* `referredNames_tree`: the types it names.
-/

namespace Sbe.Build

open Sbe.Span (Tree)

/-! ### Enclosed elements -/

/-- The opening token of an enclosed element, which counts its tokens. -/
def opened (opening : Token) (inner : List Token) : Token :=
  { opening with componentTokenCount := .ofNat (inner.length + 2) }

/-- The closing token of an enclosed element. -/
def closed (opening : Token) (inner : List Token) : Token :=
  { opened opening inner with signal := opening.signal.closing?.getD opening.signal }

theorem enclose_eq (opening : Token) (inner : List Token) :
    enclose opening inner = opened opening inner :: (inner ++ [closed opening inner]) := rfl

theorem length_enclose (opening : Token) (inner : List Token) :
    (enclose opening inner).length = inner.length + 2 := by
  rw [enclose_eq, List.length_cons, List.length_append, List.length_singleton]

/-- The count of an enclosed element is right as long as it is a word. -/
theorem span_opened (opening : Token) {inner : List Token}
    (fits : (enclose opening inner).length < wordBound) :
    (opened opening inner).span = inner.length + 2 := by
  rw [length_enclose] at fits
  exact UInt64.toNat_ofNat_of_lt' fits

theorem closing?_opened {opening : Token} {closing : Signal}
    (closes : opening.signal.closing? = some closing) (inner : List Token) :
    (opened opening inner).signal.closing? = some (closed opening inner).signal := by
  show opening.signal.closing? = some (opening.signal.closing?.getD opening.signal)
  rw [closes]
  rfl

theorem forall_mem_enclose {property : Token → Prop} {opening : Token} {inner : List Token} :
    (∀ token ∈ enclose opening inner, property token) ↔
      property (opened opening inner) ∧ (∀ token ∈ inner, property token) ∧
        property (closed opening inner) := by
  rw [enclose_eq, List.forall_mem_cons, List.forall_mem_append, List.forall_mem_singleton]

/-- The tree of an enclosed element. -/
def enclosed (opening : Token) (children : List Tree) : Tree :=
  .node (opened opening (Tree.flattenAll children)) children
    (closed opening (Tree.flattenAll children))

theorem flatten_enclosed (opening : Token) (children : List Tree) :
    (enclosed opening children).flatten = enclose opening (Tree.flattenAll children) := by
  rw [enclosed, Tree.flatten_node, enclose_eq]

theorem wellNested_enclosed {opening : Token} {closing : Signal} {children : List Tree}
    (closes : opening.signal.closing? = some closing)
    (fits : (enclosed opening children).flatten.length < wordBound)
    (inside : ∀ child ∈ children, child.WellNested) : (enclosed opening children).WellNested := by
  rw [flatten_enclosed] at fits
  refine .node (closing?_opened closes _) rfl ?_ inside
  rw [span_opened opening fits, Tree.length_flatten_node]

/-! ### The names in a tree -/

/-- The names of the types that a tree refers to, where it stands in a given parent. -/
def referredNames (parent : Option Signal) (tree : Tree) : List String :=
  (Span.typeNames (tree.starts parent)).map Token.typeName

theorem typeNames_startsAll (parent : Option Signal) (trees : List Tree) :
    (Span.typeNames (Tree.startsAll parent trees)).map Token.typeName =
      trees.flatMap (referredNames parent) := by
  induction trees with
  | nil => rw [Tree.startsAll]; rfl
  | cons tree rest ih =>
    rw [Tree.startsAll, Span.typeNames_append, List.map_append, ih, List.flatMap_cons]
    rfl

theorem referredNames_eq (parent : Option Signal) (tree : Tree) :
    referredNames parent tree =
      (if Span.isReference parent tree.first then [tree.first.typeName] else []) ++
        tree.children.flatMap (referredNames (some tree.first.signal)) := by
  rw [referredNames, Tree.typeNames_starts, List.map_append, typeNames_startsAll]
  split
  · rfl
  · rfl

/-- An element that opens no type refers only to what its children refer to. -/
theorem referredNames_of_not_opensType {parent : Option Signal} {tree : Tree}
    (single : tree.first.signal.opensType = false) :
    referredNames parent tree =
      tree.children.flatMap (referredNames (some tree.first.signal)) := by
  rw [referredNames_eq, Span.isReference, single]
  rfl

/-- So does an element that does not stand in a field or composite. -/
theorem referredNames_of_outside {parent : Option Signal} {tree : Tree}
    (outside : parent ∉ [some Signal.beginField, some .beginComposite]) :
    referredNames parent tree =
      tree.children.flatMap (referredNames (some tree.first.signal)) := by
  have none : Span.isReference parent tree.first = false := by
    rw [Span.isReference_eq, decide_eq_false_iff_not]
    exact fun names => outside names.2
  rw [referredNames_eq, none]
  rfl

/-- A type in a field or composite refers to itself, and to what its children refer to. -/
theorem referredNames_enclosed {parent : Signal} {opening : Token} {children : List Tree}
    (opensType : opening.signal.opensType = true)
    (within : some parent ∈ [some Signal.beginField, some .beginComposite]) :
    referredNames (some parent) (enclosed opening children) =
      opening.typeName :: children.flatMap (referredNames (some opening.signal)) := by
  have refers : Span.isReference (some parent) (opened opening (Tree.flattenAll children)) =
      true := by
    rw [Span.isReference_eq, decide_eq_true_iff]
    exact ⟨(Signal.opensType_iff _).mp opensType, within⟩
  rw [referredNames_eq, enclosed, Tree.first, if_pos refers]
  rfl

/-- The tree whose first token carries another version. -/
def stamped (version : UInt32) : Tree → Tree
  | .leaf token => .leaf { token with version }
  | .node opening children closing => .node { opening with version } children closing

theorem wellNested_stamped {tree : Tree} (nested : tree.WellNested) (version : UInt32) :
    (stamped version tree).WellNested := by
  cases nested with
  | leaf opens closes => exact .leaf opens closes
  | node closes named counted inside =>
    refine .node closes named ?_ inside
    rw [Tree.length_flatten_node] at counted ⊢
    exact counted

theorem flatten_stamped (version : UInt32) (tree : Tree) :
    (stamped version tree).flatten = { tree.first with version } :: tree.flatten.tail := by
  cases tree with
  | leaf token => rfl
  | node opening children closing =>
    rw [stamped, Tree.flatten_node, Tree.flatten_node]
    rfl

theorem referredNames_stamped (parent : Option Signal) (version : UInt32) (tree : Tree) :
    referredNames parent (stamped version tree) = referredNames parent tree := by
  rw [referredNames_eq, referredNames_eq]
  cases tree with
  | leaf token => rfl
  | node opening children closing => rfl

/-! ### Types -/

/-- The description of a single encoding: a value, an array whose size is a word, or a constant. -/
inductive EncodingDescription where
  | value (name : String) (offset : UInt64) (encoding : Encoding)
  | array (name : String) (offset length : UInt64) (encoding : Encoding) (token : Token)
      (built : Build.array name offset length encoding = .ok token)
  | constant (name : String) (primitive : Primitive) (fixed : Scalar)

namespace EncodingDescription

/-- The token of an encoding. -/
def token : EncodingDescription → Token
  | value name offset encoding => Build.value name offset encoding
  | array _ _ _ _ token _ => token
  | constant name primitive fixed => Build.constant name primitive fixed

/-- It is an encoding, and none that refers to a type. -/
theorem token_eq (encoding : EncodingDescription) :
    encoding.token.signal = .encoding ∧ encoding.token.referencedName = none := by
  cases encoding with
  | value | constant => exact ⟨rfl, rfl⟩
  | array _ _ _ _ _ built =>
    obtain ⟨size, _, same⟩ := Outcome.bind_eq_ok_iff.mp built
    cases same
    exact ⟨rfl, rfl⟩

end EncodingDescription

/-- The description of a type: an encoding, an enum, a set, or a composite of types. -/
inductive TypeDescription where
  | single (encoding : EncodingDescription)
  | enumeration (name : String) (offset : UInt64) (encoding : Encoding)
      (values : List (String × Scalar))
  | bitSet (name : String) (offset : UInt64) (encoding : Encoding)
      (choices : List (String × UInt64))
  | composite (name : String) (offset encodedLength : UInt64) (members : List TypeDescription)

namespace TypeDescription

/-- Induction over types, with the members of a composite. -/
@[elab_as_elim, induction_eliminator]
theorem induct {motive : TypeDescription → Prop} (single : ∀ encoding, motive (.single encoding))
    (enumeration : ∀ name offset encoding values, motive (.enumeration name offset encoding values))
    (bitSet : ∀ name offset encoding choices, motive (.bitSet name offset encoding choices))
    (composite : ∀ name offset encodedLength members, (∀ member ∈ members, motive member) →
      motive (.composite name offset encodedLength members)) : ∀ type, motive type
  | .single encoding => single encoding
  | .enumeration name offset encoding values => enumeration name offset encoding values
  | .bitSet name offset encoding choices => bitSet name offset encoding choices
  | .composite name offset encodedLength members =>
    composite name offset encodedLength members fun member _ =>
      induct single enumeration bitSet composite member

/-- The tokens of a type. -/
def tokens : TypeDescription → List Token
  | single encoding => [encoding.token]
  | enumeration name offset encoding values => Build.enumeration name offset encoding values
  | bitSet name offset encoding choices => Build.bitSet name offset encoding choices
  | composite name offset encodedLength members =>
    Build.composite name offset encodedLength (members.map tokens)

/-- The name a type is defined under; an encoding defines none. -/
def name? : TypeDescription → Option String
  | single _ => none
  | enumeration name .. | bitSet name .. | composite name .. => some name

/-- The names of the types that a type uses where it stands in a field or composite: its own, and
those of its members. -/
def uses : TypeDescription → List String
  | single _ => []
  | enumeration name .. | bitSet name .. => [name]
  | composite name _ _ members => name :: members.flatMap uses

/-- The names of the types that are used inside a type. -/
def inside : TypeDescription → List String
  | composite _ _ _ members => members.flatMap uses
  | _ => []

/-- The token that opens a type, before its tokens are counted. -/
def opening : TypeDescription → Token
  | single encoding => encoding.token
  | enumeration name offset encoding _ =>
    { signal := .beginEnum, name, offset, encodedLength := .ofNat encoding.size, encoding }
  | bitSet name offset encoding _ =>
    { signal := .beginSet, name, offset, encodedLength := .ofNat encoding.size, encoding }
  | composite name offset encodedLength _ =>
    { signal := .beginComposite, name, offset, encodedLength }

/-- The tree of a type. -/
def tree : TypeDescription → Tree
  | single encoding => .leaf encoding.token
  | type@(enumeration _ _ encoding values) => enclosed type.opening
      (values.map fun value => .leaf (named .validValue encoding.primitive value))
  | type@(bitSet _ _ encoding choices) =>
    enclosed type.opening (choices.map
        fun choice => .leaf (named .choice encoding.primitive (choice.1, .uint choice.2)))
  | type@(composite _ _ _ members) => enclosed type.opening (members.map tree)

theorem flatten_tree (type : TypeDescription) : type.tree.flatten = type.tokens := by
  induction type with
  | single encoding => rw [tree, tokens]; rfl
  | enumeration name offset encoding values =>
    rw [tree, tokens, flatten_enclosed, Tree.flattenAll_map_leaf]
    rfl
  | bitSet name offset encoding choices =>
    rw [tree, tokens, flatten_enclosed, Tree.flattenAll_map_leaf]
    rfl
  | composite name offset encodedLength members ih =>
    rw [tree, tokens, flatten_enclosed, Tree.flattenAll_map, List.flatMap_def,
      List.map_congr_left ih]
    rfl

theorem wellNested_tree {type : TypeDescription} (fits : type.tokens.length < wordBound) :
    type.tree.WellNested := by
  induction type with
  | single encoding =>
    rw [tree]
    refine .leaf ?_ ?_
    · rw [encoding.token_eq.1]
      rfl
    · rw [encoding.token_eq.1]
      rfl
  | enumeration | bitSet =>
    rw [← flatten_tree] at fits
    rw [tree] at fits ⊢
    refine wellNested_enclosed rfl fits fun child member => ?_
    obtain ⟨entry, _, rfl⟩ := List.mem_map.mp member
    exact .leaf rfl rfl
  | composite name offset encodedLength members ih =>
    rw [← flatten_tree] at fits
    rw [tree] at fits ⊢
    refine wellNested_enclosed rfl fits fun child inside => ?_
    obtain ⟨member, known, rfl⟩ := List.mem_map.mp inside
    refine ih member known ?_
    have short := Tree.length_flatten_le_of_mem inside
    rw [flatten_enclosed, length_enclose] at fits
    rw [← flatten_tree]
    omega

/-- A type that stands in a field or composite refers to the types it uses. -/
theorem referredNames_tree (type : TypeDescription) {parent : Signal}
    (within : some parent ∈ [some Signal.beginField, some .beginComposite]) :
    referredNames (some parent) type.tree = type.uses := by
  induction type generalizing parent with
  | single encoding =>
    rw [tree, uses]
    refine referredNames_of_not_opensType ?_
    rw [Tree.first, encoding.token_eq.1]
    rfl
  | enumeration | bitSet =>
    rw [tree, uses, referredNames_enclosed rfl within, List.flatMap_map,
      List.flatMap_eq_nil_iff.mpr fun _ _ => referredNames_of_not_opensType rfl]
    rfl
  | composite name offset encodedLength members ih =>
    have each : ∀ member ∈ members,
        referredNames (some .beginComposite) member.tree = member.uses := fun member known =>
      ih member known (.tail _ (.head _))
    rw [tree, uses, referredNames_enclosed rfl within, List.flatMap_map]
    exact congrArg (name :: ·) (List.flatMap_congr each)

/-- A type that stands anywhere else refers to the types used inside it. -/
theorem referredNames_tree_of_outside (type : TypeDescription) {parent : Option Signal}
    (outside : parent ∉ [some Signal.beginField, some .beginComposite]) :
    referredNames parent type.tree = type.inside := by
  rw [referredNames_of_outside outside]
  cases type with
  | single encoding => rw [tree]; rfl
  | enumeration | bitSet =>
    rw [tree]
    refine List.flatMap_eq_nil_iff.mpr fun child member => ?_
    obtain ⟨entry, _, rfl⟩ := List.mem_map.mp member
    exact referredNames_of_not_opensType rfl
  | composite name offset encodedLength members =>
    rw [tree, enclosed, Tree.children, inside, List.flatMap_map]
    exact List.flatMap_congr fun member _ => member.referredNames_tree (.tail _ (.head _))

/-- No token that is built refers to another name. -/
theorem referencedName_tokens (type : TypeDescription) :
    ∀ token ∈ type.tokens, token.referencedName = none := by
  induction type with
  | single encoding =>
    rw [tokens, List.forall_mem_singleton]
    exact encoding.token_eq.2
  | enumeration | bitSet =>
    rw [tokens]
    refine forall_mem_enclose.mpr ⟨rfl, fun token member => ?_, rfl⟩
    obtain ⟨entry, _, rfl⟩ := List.mem_map.mp member
    rfl
  | composite name offset encodedLength members ih =>
    rw [tokens]
    refine forall_mem_enclose.mpr ⟨rfl, fun token member => ?_, rfl⟩
    obtain ⟨stream, listed, inside⟩ := List.mem_flatten.mp member
    obtain ⟨part, known, rfl⟩ := List.mem_map.mp listed
    exact ih part known token inside

/-- The first token of a type. -/
theorem tokens_eq_cons (type : TypeDescription) :
    type.tokens = type.tree.first :: type.tokens.tail := by
  rw [← flatten_tree]
  exact type.tree.flatten_eq_cons

end TypeDescription

/-! ### Fields -/

/-- The description of a field of the fixed block. -/
structure FieldDescription where
  name : String
  id : Int32
  version : UInt32
  type : TypeDescription

namespace FieldDescription

/-- The tokens of a field. -/
def tokens (field : FieldDescription) : List Token :=
  Build.field field.name field.id field.version field.type.tokens

/-- The first token of the type of a field, which carries the version of the field. -/
def first (field : FieldDescription) : Token :=
  { field.type.tree.first with version := field.version }

/-- The tokens of the type of a field. -/
def typeTokens (field : FieldDescription) : List Token := field.first :: field.type.tokens.tail

/-- The token that opens a field. -/
def opening (field : FieldDescription) : Token where
  signal := .beginField
  name := field.name
  id := field.id
  version := field.version
  offset := field.first.offset
  encodedLength := field.first.encodedLength
  encoding := if field.first.signal = .encoding then field.first.encoding else {}

/-- The tree of a field. -/
def tree (field : FieldDescription) : Tree :=
  enclosed field.opening [stamped field.version field.type.tree]

theorem tokens_eq (field : FieldDescription) :
    field.tokens = enclose field.opening field.typeTokens := by
  rw [tokens, field.type.tokens_eq_cons]
  rfl

theorem flatten_tree (field : FieldDescription) : field.tree.flatten = field.tokens := by
  rw [tree, flatten_enclosed, tokens_eq, Tree.flattenAll_cons, flatten_stamped,
    field.type.flatten_tree, Tree.flattenAll, List.append_nil]
  rfl

theorem wellNested_tree {field : FieldDescription} (fits : field.tokens.length < wordBound) :
    field.tree.WellNested := by
  have typeFits : field.type.tokens.length < wordBound := by
    rw [tokens_eq, length_enclose, typeTokens, List.length_cons] at fits
    rw [field.type.tokens_eq_cons, List.length_cons]
    omega
  rw [← flatten_tree] at fits
  refine wellNested_enclosed rfl fits (List.forall_mem_singleton.mpr ?_)
  exact wellNested_stamped (TypeDescription.wellNested_tree typeFits) field.version

theorem referredNames_tree (field : FieldDescription) (parent : Option Signal) :
    referredNames parent field.tree = field.type.uses := by
  rw [referredNames_of_not_opensType rfl, tree, enclosed, Tree.children, List.flatMap_singleton,
    referredNames_stamped]
  exact field.type.referredNames_tree (.head _)

theorem referencedName_tokens (field : FieldDescription) :
    ∀ token ∈ field.tokens, token.referencedName = none := by
  rw [tokens_eq]
  refine forall_mem_enclose.mpr ⟨rfl, ?_, rfl⟩
  have whole := field.type.referencedName_tokens
  rw [field.type.tokens_eq_cons, List.forall_mem_cons] at whole
  exact List.forall_mem_cons.mpr whole

end FieldDescription

/-! ### Fields of variable length -/

/-- The description of a composite that starts with two encodings. -/
structure PairDescription where
  name : String
  offset : UInt64
  encodedLength : UInt64
  first : EncodingDescription
  second : EncodingDescription
  others : List TypeDescription

namespace PairDescription

/-- The composite as a type. -/
def type (pair : PairDescription) : TypeDescription :=
  .composite pair.name pair.offset pair.encodedLength
    (.single pair.first :: .single pair.second :: pair.others)

/-- The tokens inside the composite. -/
def inner (pair : PairDescription) : List Token :=
  pair.first.token :: pair.second.token :: (pair.others.map TypeDescription.tokens).flatten

theorem tokens_type (pair : PairDescription) :
    pair.type.tokens = enclose pair.type.opening pair.inner := by
  rw [type, TypeDescription.tokens, List.map_cons, List.map_cons, TypeDescription.tokens,
    TypeDescription.tokens]
  rfl

end PairDescription

/-- The description of a field of variable length: a length and the bytes it counts. -/
structure VarDataDescription where
  name : String
  id : Int32
  version : UInt32
  composite : PairDescription
  unsigned : composite.first.token.IsUnsigned

namespace VarDataDescription

/-- The tokens of a field of variable length. -/
def tokens (varData : VarDataDescription) : List Token :=
  Build.varData varData.name varData.id varData.version varData.composite.type.tokens

/-- The token that opens a field of variable length. -/
def opening (varData : VarDataDescription) : Token where
  signal := .beginVarData
  name := varData.name
  id := varData.id
  version := varData.version

/-- The tree of a field of variable length. -/
def tree (varData : VarDataDescription) : Tree :=
  enclosed varData.opening [varData.composite.type.tree]

theorem tokens_eq (varData : VarDataDescription) :
    varData.tokens = enclose varData.opening varData.composite.type.tokens := rfl

theorem flatten_tree (varData : VarDataDescription) : varData.tree.flatten = varData.tokens := by
  rw [tree, flatten_enclosed, tokens_eq, Tree.flattenAll_cons, TypeDescription.flatten_tree,
    Tree.flattenAll, List.append_nil]

theorem wellNested_tree {varData : VarDataDescription}
    (fits : varData.tokens.length < wordBound) : varData.tree.WellNested := by
  have typeFits : varData.composite.type.tokens.length < wordBound := by
    rw [tokens_eq, length_enclose] at fits
    omega
  rw [← flatten_tree] at fits
  refine wellNested_enclosed rfl fits (List.forall_mem_singleton.mpr ?_)
  exact TypeDescription.wellNested_tree typeFits

theorem referredNames_tree (varData : VarDataDescription) (parent : Option Signal) :
    referredNames parent varData.tree = varData.composite.type.inside := by
  rw [referredNames_of_not_opensType rfl, tree, enclosed, Tree.children, List.flatMap_singleton]
  have outside : some Signal.beginVarData ∉ [some Signal.beginField, some .beginComposite] := by
    decide
  exact varData.composite.type.referredNames_tree_of_outside outside

theorem referencedName_tokens (varData : VarDataDescription) :
    ∀ token ∈ varData.tokens, token.referencedName = none :=
  forall_mem_enclose.mpr ⟨rfl, varData.composite.type.referencedName_tokens, rfl⟩

end VarDataDescription

/-! ### Groups and messages -/

/-- The description of a group without its body. -/
structure GroupHead where
  name : String
  id : Int32
  version : UInt32
  blockLength : UInt64
  dimensions : PairDescription
  unsignedLength : dimensions.first.token.IsUnsigned
  unsignedCount : dimensions.second.token.IsUnsigned

/-- The token that opens a group. -/
def GroupHead.opening (head : GroupHead) : Token where
  signal := .beginGroup
  name := head.name
  id := head.id
  version := head.version
  encodedLength := head.blockLength

/-- The description of a group: its head, then fields, groups and fields of variable length. -/
inductive GroupDescription where
  | group (head : GroupHead) (fields : List FieldDescription) (groups : List GroupDescription)
      (varData : List VarDataDescription)

/-- The description of the body of a message or group. -/
structure BodyDescription where
  fields : List FieldDescription
  groups : List GroupDescription
  varData : List VarDataDescription

/-- The description of a message. -/
structure MessageDescription where
  name : String
  id : Int32
  blockLength : UInt64
  body : BodyDescription

namespace GroupDescription

/-- Induction over groups, with the groups inside them. -/
@[elab_as_elim, induction_eliminator]
theorem induct {motive : GroupDescription → Prop}
    (group : ∀ head fields groups varData, (∀ inner ∈ groups, motive inner) →
      motive (.group head fields groups varData)) : ∀ description, motive description
  | .group head fields groups varData =>
    group head fields groups varData fun inner _ => induct group inner

/-- The head of a group. -/
def head : GroupDescription → GroupHead
  | group head _ _ _ => head

/-- The body of a group. -/
def body : GroupDescription → BodyDescription
  | group _ fields groups varData => ⟨fields, groups, varData⟩

/-- The tokens of a group. -/
def tokens : GroupDescription → List Token
  | group head fields groups varData =>
    Build.group head.name head.id head.version head.blockLength head.dimensions.type.tokens
      (fields.map FieldDescription.tokens ++ groups.map tokens ++
        varData.map VarDataDescription.tokens)

/-- The names of the types that a group uses. -/
def uses : GroupDescription → List String
  | group head fields groups varData =>
    head.dimensions.type.inside ++ (fields.flatMap (fun field => field.type.uses) ++
      groups.flatMap uses ++ varData.flatMap fun data => data.composite.type.inside)

/-- The tree of a group. -/
def tree : GroupDescription → Tree
  | group head fields groups varData => enclosed head.opening <| head.dimensions.type.tree ::
      (fields.map FieldDescription.tree ++ groups.map tree ++ varData.map VarDataDescription.tree)

end GroupDescription

namespace BodyDescription

/-- The tokens of the elements of a body. -/
def tokens (body : BodyDescription) : List (List Token) :=
  body.fields.map FieldDescription.tokens ++ body.groups.map GroupDescription.tokens ++
    body.varData.map VarDataDescription.tokens

/-- The names of the types that a body uses. -/
def uses (body : BodyDescription) : List String :=
  body.fields.flatMap (fun field => field.type.uses) ++ body.groups.flatMap GroupDescription.uses ++
    body.varData.flatMap fun data => data.composite.type.inside

/-- The trees of the elements of a body. -/
def trees (body : BodyDescription) : List Tree :=
  body.fields.map FieldDescription.tree ++ body.groups.map GroupDescription.tree ++
    body.varData.map VarDataDescription.tree

end BodyDescription

namespace GroupDescription

theorem tokens_eq (group : GroupDescription) : group.tokens = enclose group.head.opening
    (group.head.dimensions.type.tokens ++ group.body.tokens.flatten) := by
  cases group with
  | group => rw [tokens]; rfl

theorem tree_eq (group : GroupDescription) :
    group.tree =
      enclosed group.head.opening (group.head.dimensions.type.tree :: group.body.trees) := by
  cases group with
  | group => rw [tree]; rfl

theorem uses_eq (group : GroupDescription) :
    group.uses = group.head.dimensions.type.inside ++ group.body.uses := by
  cases group with
  | group => rw [uses]; rfl

end GroupDescription

/-! A body is treated before the groups in it, for which the same is assumed; the induction over
groups then settles both. -/

namespace BodyDescription

theorem forall_mem_tokens {body : BodyDescription} {property : List Token → Prop} :
    (∀ stream ∈ body.tokens, property stream) ↔
      (∀ field ∈ body.fields, property field.tokens) ∧
        (∀ group ∈ body.groups, property group.tokens) ∧
          ∀ data ∈ body.varData, property data.tokens := by
  rw [tokens, List.forall_mem_append, List.forall_mem_append, List.forall_mem_map,
    List.forall_mem_map, List.forall_mem_map, and_assoc]

/-- The elements of a body fit where the body does. -/
theorem length_lt_of_fits {body : BodyDescription} (fits : body.tokens.flatten.length < wordBound) :
    ∀ stream ∈ body.tokens, stream.length < wordBound := fun _ member =>
  Nat.lt_of_le_of_lt (List.sublist_flatten_of_mem member).length_le fits

theorem forall_mem_trees {body : BodyDescription} {property : Tree → Prop} :
    (∀ tree ∈ body.trees, property tree) ↔
      (∀ field ∈ body.fields, property field.tree) ∧
        (∀ group ∈ body.groups, property group.tree) ∧
          ∀ data ∈ body.varData, property data.tree := by
  rw [trees, List.forall_mem_append, List.forall_mem_append, List.forall_mem_map,
    List.forall_mem_map, List.forall_mem_map, and_assoc]

theorem flattenAll_trees_of_groups {body : BodyDescription}
    (groups : ∀ group ∈ body.groups, group.tree.flatten = group.tokens) :
    Tree.flattenAll body.trees = body.tokens.flatten := by
  have parts : body.trees.map Tree.flatten = body.tokens := by
    rw [trees, tokens]
    simp only [List.map_append, List.map_map, Function.comp_def, FieldDescription.flatten_tree,
      VarDataDescription.flatten_tree]
    rw [List.map_congr_left groups]
  rw [← parts, ← List.flatMap_def, ← Tree.flattenAll_map, List.map_id']

theorem wellNested_of_groups {body : BodyDescription}
    (fits : body.tokens.flatten.length < wordBound)
    (groups : ∀ group ∈ body.groups, group.tokens.length < wordBound → group.tree.WellNested) :
    ∀ tree ∈ body.trees, tree.WellNested := by
  obtain ⟨fieldsFit, groupsFit, varDataFit⟩ := forall_mem_tokens.mp (length_lt_of_fits fits)
  refine forall_mem_trees.mpr
    ⟨fun field member => ?_, fun group member => ?_, fun data member => ?_⟩
  · exact FieldDescription.wellNested_tree (fieldsFit field member)
  · exact groups group member (groupsFit group member)
  · exact VarDataDescription.wellNested_tree (varDataFit data member)

theorem referredNames_of_groups {body : BodyDescription} {parent : Option Signal}
    (groups : ∀ group ∈ body.groups, referredNames parent group.tree = group.uses) :
    body.trees.flatMap (referredNames parent) = body.uses := by
  rw [trees, uses, List.flatMap_append, List.flatMap_append, List.flatMap_map, List.flatMap_map,
    List.flatMap_map, List.flatMap_congr groups]
  simp only [FieldDescription.referredNames_tree, VarDataDescription.referredNames_tree]

theorem referencedName_of_groups {body : BodyDescription}
    (groups : ∀ group ∈ body.groups, ∀ token ∈ group.tokens, token.referencedName = none) :
    ∀ token ∈ body.tokens.flatten, token.referencedName = none := by
  have each : ∀ stream ∈ body.tokens, ∀ token ∈ stream, token.referencedName = none :=
    forall_mem_tokens.mpr ⟨fun field _ => field.referencedName_tokens, groups,
      fun data _ => data.referencedName_tokens⟩
  intro token member
  obtain ⟨stream, listed, inside⟩ := List.mem_flatten.mp member
  exact each stream listed token inside

end BodyDescription

namespace GroupDescription

theorem flatten_tree (group : GroupDescription) : group.tree.flatten = group.tokens := by
  induction group with
  | group head fields groups varData ih =>
    rw [tree_eq, tokens_eq, flatten_enclosed, Tree.flattenAll_cons, TypeDescription.flatten_tree,
      BodyDescription.flattenAll_trees_of_groups ih]

theorem wellNested_tree {group : GroupDescription} (fits : group.tokens.length < wordBound) :
    group.tree.WellNested := by
  induction group with
  | group head fields groups varData ih =>
    have sizes := fits
    rw [tokens_eq, length_enclose, List.length_append] at sizes
    rw [← flatten_tree, tree_eq] at fits
    rw [tree_eq]
    refine wellNested_enclosed rfl fits (List.forall_mem_cons.mpr ⟨?_, ?_⟩)
    · exact TypeDescription.wellNested_tree (by omega)
    · exact BodyDescription.wellNested_of_groups (by omega) ih

theorem referredNames_tree (group : GroupDescription) (parent : Option Signal) :
    referredNames parent group.tree = group.uses := by
  induction group generalizing parent with
  | group head fields groups varData ih =>
    have outside : some Signal.beginGroup ∉ [some Signal.beginField, some .beginComposite] := by
      decide
    have body : (BodyDescription.trees ⟨fields, groups, varData⟩).flatMap
        (referredNames (some .beginGroup)) = BodyDescription.uses ⟨fields, groups, varData⟩ :=
      BodyDescription.referredNames_of_groups fun group member => ih group member _
    rw [tree_eq, uses_eq, referredNames_of_not_opensType rfl]
    show referredNames (some .beginGroup) head.dimensions.type.tree ++ _ = _
    rw [head.dimensions.type.referredNames_tree_of_outside outside]
    exact congrArg (head.dimensions.type.inside ++ ·) body

theorem referencedName_tokens (group : GroupDescription) :
    ∀ token ∈ group.tokens, token.referencedName = none := by
  induction group with
  | group head fields groups varData ih =>
    rw [tokens_eq]
    refine forall_mem_enclose.mpr ⟨rfl, List.forall_mem_append.mpr ⟨?_, ?_⟩, rfl⟩
    · exact head.dimensions.type.referencedName_tokens
    · exact BodyDescription.referencedName_of_groups ih

end GroupDescription

namespace MessageDescription

/-- The tokens of a message. -/
def tokens (message : MessageDescription) : List Token :=
  Build.message message.name message.id message.blockLength message.body.tokens

/-- The token that opens a message. -/
def opening (message : MessageDescription) : Token where
  signal := .beginMessage
  name := message.name
  id := message.id
  encodedLength := message.blockLength

/-- The tree of a message. -/
def tree (message : MessageDescription) : Tree := enclosed message.opening message.body.trees

theorem tokens_eq (message : MessageDescription) :
    message.tokens = enclose message.opening message.body.tokens.flatten := rfl

theorem flatten_tree (message : MessageDescription) : message.tree.flatten = message.tokens := by
  rw [tree, flatten_enclosed, tokens_eq,
    BodyDescription.flattenAll_trees_of_groups fun group _ => group.flatten_tree]

theorem wellNested_tree {message : MessageDescription} (fits : message.tokens.length < wordBound) :
    message.tree.WellNested := by
  have bodyFits : message.body.tokens.flatten.length < wordBound := by
    rw [tokens_eq, length_enclose] at fits
    omega
  rw [← flatten_tree] at fits
  exact wellNested_enclosed rfl fits
    (BodyDescription.wellNested_of_groups bodyFits fun _ _ => GroupDescription.wellNested_tree)

theorem referredNames_tree (message : MessageDescription) (parent : Option Signal) :
    referredNames parent message.tree = message.body.uses := by
  rw [referredNames_of_not_opensType rfl]
  exact BodyDescription.referredNames_of_groups fun group _ => group.referredNames_tree _

theorem referencedName_tokens (message : MessageDescription) :
    ∀ token ∈ message.tokens, token.referencedName = none := by
  rw [tokens_eq]
  exact forall_mem_enclose.mpr ⟨rfl,
    BodyDescription.referencedName_of_groups fun group _ => group.referencedName_tokens, rfl⟩

end MessageDescription

end Sbe.Build
