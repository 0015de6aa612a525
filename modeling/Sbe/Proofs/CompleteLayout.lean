import Sbe.Layout.Outline
import Sbe.Proofs.NestedLayout
import Sbe.Token.Build

/-!
**Accepted messages are laid out completely.**

Verification, decomposition and inspection go down the groups of a message on their own, each over
the streams that the one before has cut out. Here all three are tied to the tree of the message.

* `IsField`, `IsGroup`, `IsVarData`: a tree and the layout that stands for it;
* `LaidOut`: the trees of a body and all that is found of them, at every depth of groups;
* `laidOut_of_accepted`: bodies that are accepted are laid out;
* `LaidOut.ofBody_eq`: a body that is laid out has the outline of its trees;
* `Schema.outlines_of_verify`: so every message of an accepted schema is described as its tree says.
-/

namespace Sbe

open Sbe.Span (Tree)
open Sbe.Span.Tree (flattenAll)

namespace Span.Tree

/-! ### Outlines of trees -/

/-- The names of the trees that open with a signal. -/
def namesOf (signal : Signal) (trees : List Tree) : List String :=
  (trees.filter fun tree => tree.first.signal = signal).map fun tree => tree.first.name

mutual

/-- The outline of a message or group: its fields, groups and fields of variable length are its
children. -/
def outline : Tree → Outline
  | leaf token => .body token.name token.id token.version token.encodedLength [] [] []
  | node opening children _ =>
    .body opening.name opening.id opening.version opening.encodedLength
      (namesOf .beginField children) (groupOutlines children) (namesOf .beginVarData children)

/-- The outlines of the groups among trees. -/
def groupOutlines : List Tree → List Outline
  | [] => []
  | tree :: rest =>
    if tree.first.signal = .beginGroup then tree.outline :: groupOutlines rest
      else groupOutlines rest

end

theorem outline_eq (tree : Tree) :
    tree.outline = .body tree.first.name tree.first.id tree.first.version tree.first.encodedLength
      (namesOf .beginField tree.children) (groupOutlines tree.children)
      (namesOf .beginVarData tree.children) := by
  cases tree with
  | leaf token => rw [outline, children, groupOutlines]; rfl
  | node opening children closing => rw [outline]; rfl

theorem groupOutlines_eq (trees : List Tree) :
    groupOutlines trees =
      (trees.filter fun tree => tree.first.signal = .beginGroup).map outline := by
  induction trees with
  | nil => rw [groupOutlines]; rfl
  | cons tree rest ih =>
    rw [groupOutlines, List.filter_cons, ih]
    by_cases opens : tree.first.signal = .beginGroup
    · simp [opens]
    · simp [opens]

theorem namesOf_cons_of_ne {signal : Signal} {tree : Tree} (other : tree.first.signal ≠ signal)
    (rest : List Tree) : namesOf signal (tree :: rest) = namesOf signal rest := by
  rw [namesOf, List.filter_cons_of_neg (by simpa using other), namesOf]

theorem filter_opens {opened : Signal} {trees : List Tree}
    (opens : ∀ tree ∈ trees, tree.first.signal = opened) (signal : Signal) :
    (trees.filter fun tree => tree.first.signal = signal) =
      if opened = signal then trees else [] := by
  split
  · next same => exact List.filter_eq_self.mpr fun tree member => by simp [opens tree member, same]
  · next other =>
    exact List.filter_eq_nil_iff.mpr fun tree member => by simpa [opens tree member] using other

/-- A tree whose token is an encoding is that token. -/
theorem WellNested.eq_leaf {tree : Tree} (nested : tree.WellNested)
    (single : tree.first.signal = .encoding) : tree = .leaf tree.first := by
  cases nested with
  | leaf => rfl
  | node closes =>
    rw [first] at single
    rw [single] at closes
    cases closes

/-- Trees whose stream starts with an encoding start with that encoding. -/
theorem eq_leaf_cons {trees : List Tree} (nested : ∀ tree ∈ trees, tree.WellNested) {token : Token}
    (found : (flattenAll trees)[0]? = some token) (single : token.signal = .encoding) :
    trees = .leaf token :: trees.tail := by
  cases trees with
  | nil => rw [flattenAll] at found; cases found
  | cons tree rest =>
    rw [flattenAll_cons, flatten_eq_cons] at found
    cases found
    rw [List.tail_cons, ← (nested tree List.mem_cons_self).eq_leaf single]

end Span.Tree

namespace Layout

/-! ### Layouts of trees -/

/-- The tree of a field, and its layout. -/
structure IsField (tree : Tree) (layout : FieldLayout) : Prop where
  opens : tree.first.signal = .beginField
  field : layout.field = tree.first
  type : layout.type = flattenAll tree.children
  typed : layout.type ≠ []

/-- The tree of a group, and its layout. The first child is the composite of the dimensions, whose
first two members are encodings; the other children are the body. -/
structure IsGroup (tree : Tree) (layout : GroupLayout) : Prop where
  opens : tree.first.signal = .beginGroup
  group : layout.group = tree.first
  dimensions : ∃ dimensions others, tree.children = dimensions :: tree.children.tail ∧
    layout.dimensions = dimensions.first ∧ dimensions.first.signal = .beginComposite ∧
    dimensions.children = .leaf layout.blockLength :: .leaf layout.numInGroup :: others
  encodings : layout.blockLength.signal = .encoding ∧ layout.numInGroup.signal = .encoding

/-- The tree of a field of variable length, and its layout. -/
structure IsVarData (tree : Tree) (layout : VarDataLayout) : Prop where
  opens : tree.first.signal = .beginVarData
  varData : layout.varData = tree.first
  length : tree.flatten[2]? = some layout.length ∧ layout.length.signal = .encoding
  data : tree.flatten[3]? = some layout.data ∧ layout.data.signal = .encoding

/-- The trees of a body, and the body found of them: the trees of its fields, then of its groups,
then of its fields of variable length, each with its layout, and nothing else. The trees of a group,
behind its dimensions, are those of its body. -/
inductive LaidOut : List Tree → Body → Prop where
  | intro {trees : List Tree} {body : Body} {fields : List (Tree × FieldLayout)}
      {groups : List (Tree × GroupLayout)} {varData : List (Tree × VarDataLayout)}
      (split : trees = fields.map Prod.fst ++ groups.map Prod.fst ++ varData.map Prod.fst)
      (decomposed : decomposeAll (flattenAll trees) = .ok body)
      (runs : body = ⟨flattenAll (fields.map Prod.fst), flattenAll (groups.map Prod.fst),
        flattenAll (varData.map Prod.fst), (flattenAll trees).length⟩)
      (fieldsFound : splitFields 0 body.fields = .ok (fields.map Prod.snd))
      (groupsFound : splitGroups 0 body.groups = .ok (groups.map Prod.snd))
      (varDataFound : splitVarData 0 body.varData = .ok (varData.map Prod.snd))
      (isFields : ∀ item ∈ fields, IsField item.1 item.2)
      (isGroups : ∀ item ∈ groups, IsGroup item.1 item.2)
      (isVarData : ∀ item ∈ varData, IsVarData item.1 item.2)
      (dimensions : ∀ item ∈ groups, item.2.blockLength.IsUnsigned ∧ item.2.numInGroup.IsUnsigned)
      (lengths : ∀ item ∈ varData, item.2.length.IsUnsigned)
      (inside : ∀ item ∈ groups, LaidOut item.1.children.tail item.2.body) : LaidOut trees body

/-- The trees of a body that open with a signal are all of its fields, groups or fields of variable
length. -/
theorem filter_split {fields : List (Tree × FieldLayout)} {groups : List (Tree × GroupLayout)}
    {varData : List (Tree × VarDataLayout)} (isFields : ∀ item ∈ fields, IsField item.1 item.2)
    (isGroups : ∀ item ∈ groups, IsGroup item.1 item.2)
    (isVarData : ∀ item ∈ varData, IsVarData item.1 item.2) (signal : Signal) :
    ((fields.map Prod.fst ++ groups.map Prod.fst ++ varData.map Prod.fst).filter
        fun tree => tree.first.signal = signal) =
      (if .beginField = signal then fields.map Prod.fst else []) ++
        (if .beginGroup = signal then groups.map Prod.fst else []) ++
        if .beginVarData = signal then varData.map Prod.fst else [] := by
  rw [List.filter_append, List.filter_append,
    Tree.filter_opens (List.forall_mem_map.mpr fun item member => (isFields item member).opens),
    Tree.filter_opens (List.forall_mem_map.mpr fun item member => (isGroups item member).opens),
    Tree.filter_opens (List.forall_mem_map.mpr fun item member => (isVarData item member).opens)]

/-! ### Groups and fields of variable length -/

theorem encodingAt_eq_ok {tokens : List Token} {offset limit : Nat} {token : Token}
    (found : encodingAt tokens offset limit = .ok token) :
    tokens[offset]? = some token ∧ offset < limit ∧ token.signal = .encoding := by
  unfold encodingAt at found
  split at found
  · next other _ stands =>
    split at found
    · next passed =>
      cases found
      exact ⟨stands, passed⟩
    · cases found
  · cases found
  · cases found

/-- What opening a group finds in its tree. -/
theorem isGroup_of_groupLayout {tree : Tree} (nested : tree.WellNested)
    (opens : tree.first.signal = .beginGroup) {index : Nat}
    (fits : index + tree.flatten.length < wordBound) {after : List Token} {layout : GroupLayout}
    (found : groupLayout index tree.first (flattenAll tree.children) (tree.flatten.tail ++ after) =
      .ok layout) :
    IsGroup tree layout ∧ decomposeAll (flattenAll tree.children.tail) = .ok layout.body := by
  obtain ⟨closing, closes, tokens, _⟩ := nested.flatten_of_opens (by rw [opens]; rfl)
  have inside := nested.children
  rw [tokens, List.length_cons, List.length_append, List.length_singleton] at fits
  rw [tokens, List.tail_cons, List.append_assoc] at found
  cases children : tree.children with
  | nil =>
    rw [children] at found
    rw [opens] at closes
    cases closing with | mk signal =>
    cases closes
    cases found
  | cons dimensions members =>
    rw [children] at inside fits found
    obtain ⟨first, later⟩ := List.forall_mem_cons.mp inside
    rw [Tree.flattenAll_cons, List.length_append] at fits
    rw [Tree.flattenAll_cons, Tree.flatten_eq_cons, List.cons_append, List.cons_append,
      groupLayout] at found
    by_cases composite : dimensions.first.signal = .beginComposite
    · have begins : dimensions.first.signal.isBegin = true := by rw [composite]; rfl
      have size := first.length_flatten_of_opens begins
      obtain ⟨ending, _, dimensionTokens, _⟩ := first.flatten_of_opens begins
      rw [if_neg (not_not_intro composite), List.append_assoc,
        closedSpan_flatten first begins (by omega), Outcome.ok_bind] at found
      dsimp only at found
      rw [← List.cons_append, ← Tree.flatten_eq_cons, ← size, List.drop_left] at found
      obtain ⟨_, found⟩ := Outcome.ite_refuse_eq_ok_iff.mp found
      obtain ⟨blockLength, blockLengthFound, found⟩ := Outcome.bind_eq_ok_iff.mp found
      obtain ⟨numInGroup, numInGroupFound, found⟩ := Outcome.bind_eq_ok_iff.mp found
      obtain ⟨body, bodyFound, found⟩ := Outcome.bind_eq_ok_iff.mp found
      cases found
      obtain ⟨second, secondInside, isBlockLength⟩ := encodingAt_eq_ok blockLengthFound
      obtain ⟨third, thirdInside, isNumInGroup⟩ := encodingAt_eq_ok numInGroupFound
      -- The two encodings stand right behind the opening tokens of the group and its dimensions.
      rw [size] at secondInside thirdInside
      rw [dimensionTokens, List.tail_cons, List.append_assoc] at second third
      have one : (flattenAll dimensions.children)[0]? = some blockLength := by
        rw [← List.getElem?_append_left (by omega)]
        exact second
      have two : (flattenAll dimensions.children)[1]? = some numInGroup := by
        rw [← List.getElem?_append_left (by omega)]
        exact third
      have leading := Tree.eq_leaf_cons first.children one isBlockLength
      rw [leading, Tree.flattenAll_cons] at two
      have others : ∀ tree ∈ dimensions.children.tail, tree.WellNested :=
        fun tree member => first.children tree (List.mem_of_mem_tail member)
      have following := Tree.eq_leaf_cons others two isNumInGroup
      rw [following] at leading
      exact ⟨⟨opens, rfl,
          ⟨dimensions, _, by rw [children, List.tail_cons], rfl, composite, leading⟩, isBlockLength,
          isNumInGroup⟩, bodyFound⟩
    · rw [if_pos composite] at found
      cases found

/-- What a scan of trees opens are its trees, in their order. -/
theorem Scans.exists_of_flattenAll {α : Type} {opening : Signal}
    {lay : Nat → Token → List Token → List Token → Result α}
    {scan : Nat → List Token → Result (List α)}
    (scans : Scans opening lay scan) (begins : opening.isBegin = true) {holds : Tree → α → Prop}
    (each : ∀ tree : Tree, tree.WellNested → tree.first.signal = opening → ∀ index after,
      index + tree.flatten.length < wordBound → ∀ layout,
        lay index tree.first (flattenAll tree.children) (tree.flatten.tail ++ after) = .ok layout →
        holds tree layout)
    {trees : List Tree} (forest : IsForest opening trees) {index : Nat}
    (fits : index + (flattenAll trees).length < wordBound) {layouts : List α}
    (found : scan index (flattenAll trees) = .ok layouts) :
    ∃ items : List (Tree × α), items.map Prod.fst = trees ∧ items.map Prod.snd = layouts ∧
      ∀ item ∈ items, holds item.1 item.2 := by
  induction trees generalizing index layouts with
  | nil =>
    rw [flattenAll, scans.nil] at found
    cases found
    exact ⟨[], rfl, rfl, by simp⟩
  | cons tree rest ih =>
    obtain ⟨first, opens, later⟩ := forest.cons
    rw [scans.flattenAll_cons begins forest fits] at found
    rw [Tree.flattenAll_cons, List.length_append] at fits
    obtain ⟨layout, layoutFound, found⟩ := Outcome.bind_eq_ok_iff.mp found
    obtain ⟨others, othersFound, found⟩ := Outcome.bind_eq_ok_iff.mp found
    cases found
    obtain ⟨items, rfl, rfl, inside⟩ := ih later (by omega) othersFound
    refine ⟨(tree, layout) :: items, rfl, rfl, List.forall_mem_cons.mpr ⟨?_, inside⟩⟩
    exact each tree first opens index _ (by omega) layout layoutFound

/-- The groups that a run splits into are its trees, in their order. -/
theorem exists_groups_of_flattenAll {trees : List Tree} (forest : IsForest .beginGroup trees)
    {index : Nat} (fits : index + (flattenAll trees).length < wordBound)
    {layouts : List GroupLayout} (found : splitGroups index (flattenAll trees) = .ok layouts) :
    ∃ groups : List (Tree × GroupLayout), groups.map Prod.fst = trees ∧
      groups.map Prod.snd = layouts ∧
      ∀ item ∈ groups, IsGroup item.1 item.2 ∧
        decomposeAll (flattenAll item.1.children.tail) = .ok item.2.body :=
  scans_splitGroups.exists_of_flattenAll rfl
    (fun _ nested opens _ _ small _ laid => isGroup_of_groupLayout nested opens small laid) forest
    fits found

theorem isVarData_of_varDataLayout {tree : Tree} (nested : tree.WellNested)
    (opens : tree.first.signal = .beginVarData) {index : Nat} {after : List Token}
    {layout : VarDataLayout}
    (found : varDataLayout index tree.first (flattenAll tree.children)
        (tree.flatten.tail ++ after) = .ok layout) : IsVarData tree layout := by
  have size := nested.length_flatten_of_opens (by rw [opens]; rfl)
  unfold varDataLayout at found
  rw [← List.cons_append, ← Tree.flatten_eq_cons] at found
  obtain ⟨length, lengthFound, found⟩ := Outcome.bind_eq_ok_iff.mp found
  obtain ⟨data, dataFound, found⟩ := Outcome.bind_eq_ok_iff.mp found
  cases found
  refine ⟨opens, rfl, ?_, ?_⟩
  · obtain ⟨stands, inside, single⟩ := encodingAt_eq_ok lengthFound
    rw [List.getElem?_append_left (by omega)] at stands
    exact ⟨stands, single⟩
  · obtain ⟨stands, inside, single⟩ := encodingAt_eq_ok dataFound
    rw [List.getElem?_append_left (by omega)] at stands
    exact ⟨stands, single⟩

/-- The fields of variable length that a run splits into are its trees, in their order. -/
theorem exists_varData_of_flattenAll {trees : List Tree} (forest : IsForest .beginVarData trees)
    {index : Nat} (fits : index + (flattenAll trees).length < wordBound)
    {layouts : List VarDataLayout} (found : splitVarData index (flattenAll trees) = .ok layouts) :
    ∃ varData : List (Tree × VarDataLayout), varData.map Prod.fst = trees ∧
      varData.map Prod.snd = layouts ∧ ∀ item ∈ varData, IsVarData item.1 item.2 :=
  scans_splitVarData.exists_of_flattenAll rfl
    (fun _ nested opens _ _ _ _ laid => isVarData_of_varDataLayout nested opens laid) forest fits
    found

/-! ### Bodies -/

/-- An accepted body is laid out along its trees. -/
theorem laidOut_of_accepted {trees : List Tree} (nested : ∀ tree ∈ trees, tree.WellNested)
    (fits : (flattenAll trees).length < wordBound) {body : Body}
    (found : decomposeAll (flattenAll trees) = .ok body) (accepted : body.Accepted) :
    LaidOut trees body := by
  induction accepted generalizing trees with
  | @intro body fieldLayouts groupLayouts varDataLayouts fieldsFound typed groupsFound dimensions _
      varDataFound lengths ih =>
    obtain ⟨fields, groupTrees, varDataTrees, rest, split, isFields, isGroups, isVarData, ended⟩ :=
      decomposeAll_flattenAll nested fits
    have complete := found
    rw [ended] at found
    cases rest with
    | cons extra _ => cases found
    | nil =>
    cases found
    rw [List.append_nil] at split
    have sizes := congrArg (fun trees => (flattenAll trees).length) split
    simp only [Tree.flattenAll_append, List.length_append] at sizes
    dsimp only at fieldsFound groupsFound varDataFound
    obtain ⟨groups, rfl, rfl, groupsEach⟩ :=
      exists_groups_of_flattenAll isGroups (by omega) groupsFound
    obtain ⟨varData, rfl, rfl, varDataEach⟩ :=
      exists_varData_of_flattenAll isVarData (by omega) varDataFound
    have typedFields : splitFields 0 (flattenAll fields) = _ :=
      splitFields_flattenAll isFields (by omega)
    rw [fieldsFound] at typedFields
    cases typedFields
    let pair (tree : Tree) : Tree × FieldLayout := (tree, ⟨tree.first, flattenAll tree.children⟩)
    have heads : (fields.map pair).map Prod.fst = fields := by simp [pair, Function.comp_def]
    refine @LaidOut.intro _ _ (fields.map pair) groups varData (by rw [heads, split]) complete
      (by rw [heads]) ?_ groupsFound varDataFound ?_ ?_ varDataEach ?_ ?_ ?_
    · rw [List.map_map]
      exact fieldsFound
    · intro item member
      obtain ⟨tree, inside, rfl⟩ := List.mem_map.mp member
      exact ⟨isFields.opens tree inside, rfl, rfl, typed _ (List.mem_map_of_mem inside)⟩
    · exact fun item member => (groupsEach item member).1
    · exact fun item member => dimensions item.2 (List.mem_map_of_mem member)
    · exact fun item member => lengths item.2 (List.mem_map_of_mem member)
    · intro item member
      obtain ⟨isGroup, inside⟩ := groupsEach item member
      have first := isGroups.nested item.1 (List.mem_map_of_mem member)
      have size := first.length_flatten_of_opens (by rw [isGroup.opens]; rfl)
      have small := first.length_flatten_lt
      obtain ⟨head, _, children, _⟩ := isGroup.dimensions
      rw [children, Tree.flattenAll_cons, List.length_append] at size
      refine ih item.2 (List.mem_map_of_mem member) ?_ (by omega) inside
      exact fun tree member => first.children tree (List.mem_of_mem_tail member)

/-! ### Outlines of bodies -/

/-- The outline of a group skips its dimensions, so it is that of the trees of its body. -/
theorem IsGroup.outline_eq {tree : Tree} {layout : GroupLayout} (isGroup : IsGroup tree layout) :
    tree.outline = .body layout.group.name layout.group.id layout.group.version
      layout.group.encodedLength (Tree.namesOf .beginField tree.children.tail)
      (Tree.groupOutlines tree.children.tail) (Tree.namesOf .beginVarData tree.children.tail) := by
  obtain ⟨dimensions, _, children, _, composite, _⟩ := isGroup.dimensions
  rw [Tree.outline_eq, children, Tree.groupOutlines, if_neg (by rw [composite]; decide),
    Tree.namesOf_cons_of_ne (by rw [composite]; decide),
    Tree.namesOf_cons_of_ne (by rw [composite]; decide), isGroup.group, List.tail_cons]

/-- A body that is laid out is described by its trees, at every depth of groups. -/
theorem LaidOut.ofBody_eq {trees : List Tree} {body : Body} (laidOut : LaidOut trees body)
    (token : Token) : Outline.ofBody token body = .ok (.body token.name token.id token.version
      token.encodedLength (Tree.namesOf .beginField trees) (Tree.groupOutlines trees)
      (Tree.namesOf .beginVarData trees)) := by
  induction laidOut generalizing token with
  | @intro trees body fields groups varData split _ _ fieldsFound groupsFound varDataFound isFields
      isGroups isVarData _ _ _ ih =>
    have each : ((groups.map Prod.snd).mapM
        fun layout => Outline.ofBody layout.group layout.body) =
          .ok (groups.map fun item => item.1.outline) := by
      rw [List.mapM_map]
      refine Outcome.mapM_eq_ok fun item member => ?_
      rw [(isGroups item member).outline_eq]
      exact ih item member _
    have kept := filter_split isFields isGroups isVarData
    rw [← split] at kept
    have fieldNames : Tree.namesOf .beginField trees =
        (fields.map Prod.snd).map fun layout => layout.field.name := by
      simpa [Tree.namesOf, kept] using fun tree layout member =>
        congrArg Token.name (isFields (tree, layout) member).field.symm
    have varDataNames : Tree.namesOf .beginVarData trees =
        (varData.map Prod.snd).map fun layout => layout.varData.name := by
      simpa [Tree.namesOf, kept] using fun tree layout member =>
        congrArg Token.name (isVarData (tree, layout) member).varData.symm
    have groupOutlines : Tree.groupOutlines trees = groups.map fun item => item.1.outline := by
      simp [Tree.groupOutlines_eq, kept, Function.comp_def]
    rw [Outline.ofBody_eq_ok fieldsFound groupsFound each varDataFound, fieldNames, varDataNames,
      groupOutlines]

/-! ### Messages -/

/-- The tree of a message, laid out as a whole. -/
structure IsMessage (tree : Tree) : Prop where
  nested : tree.WellNested
  opens : tree.first.signal = .beginMessage
  laidOut : ∃ body, decomposeMessage tree.flatten = .ok body ∧ LaidOut tree.children body

theorem exists_isMessage {tokens : List Token} (accepted : MessageAccepted tokens) :
    ∃ tree, IsMessage tree ∧ tree.flatten = tokens := by
  obtain ⟨⟨passed, ⟨first, rest, start, opens⟩, _⟩, body, found, bodyAccepted⟩ := accepted
  obtain ⟨tree, nested, rfl, _⟩ := Span.wellNested_of_check passed
  rw [Tree.flatten_eq_cons] at start
  cases start
  have message : tree.first.signal = .beginMessage := by simpa using opens
  have size := nested.length_flatten_of_opens (by rw [message]; rfl)
  have fits := nested.length_flatten_lt
  have decomposed := found
  rw [decomposeMessage_flatten nested message] at decomposed
  exact ⟨tree, ⟨nested, message, body, found,
    laidOut_of_accepted nested.children (by omega) decomposed bodyAccepted⟩, rfl⟩

/-- The description of a message is the outline of its tree. -/
theorem IsMessage.ofMessage_eq {tree : Tree} (isMessage : IsMessage tree) :
    Outline.ofMessage tree.flatten = .ok tree.outline := by
  obtain ⟨body, found, laidOut⟩ := isMessage.laidOut
  rw [Outline.ofMessage, found, Outcome.ok_bind, Tree.flatten_eq_cons, Tree.outline_eq]
  exact laidOut.ofBody_eq _

end Layout

namespace Schema

open Layout

/-- **Verified messages decompose completely.** The messages of a verified schema are the streams of
trees whose bodies are laid out at every depth, with nothing left over, and the schema is described
by the outlines of these trees, one for each message and in their order. -/
theorem outlines_of_verify {schema : Schema} (verified : schema.verify = .ok ()) :
    ∃ trees : List Tree, trees.map Tree.flatten = schema.messages ∧
      (∀ tree ∈ trees, IsMessage tree) ∧ schema.outlines = .ok (trees.map Tree.outline) := by
  have accepted := (verify_eq_ok_iff.mp verified).messages
  rw [outlines]
  generalize schema.messages = messages at accepted
  induction messages with
  | nil => exact ⟨[], rfl, by simp, rfl⟩
  | cons tokens rest ih =>
    obtain ⟨first, later⟩ := List.forall_mem_cons.mp accepted
    obtain ⟨tree, isMessage, rfl⟩ := exists_isMessage first
    obtain ⟨trees, rfl, areMessages, described⟩ := ih later
    refine ⟨tree :: trees, rfl, List.forall_mem_cons.mpr ⟨isMessage, areMessages⟩, ?_⟩
    rw [List.mapM_cons, isMessage.ofMessage_eq, Outcome.ok_bind, described]
    rfl

/-- A schema with a group inside a group, and with an empty message. -/
def convoy : Schema where
  packageName := "convoy"
  id := 8
  header := Build.messageHeader
  messages := [Build.message "Convoy" 1 2
      [Build.field "speed" 1 0 [Build.value "speed" 0 (.of .uint16)],
        Build.group "trucks" 2 0 1 Build.groupSize
          [Build.field "seats" 3 0 [Build.value "seats" 0 (.of .uint8)],
            Build.group "axles" 4 1 4 Build.groupSize
              [Build.field "load" 5 0 [Build.value "load" 0 (.of .uint32)]],
            Build.varData "plate" 6 0 (Build.varDataEncoding none)]],
    Build.message "Stop" 2 0 []]

theorem convoy_outlines : convoy.verify = .ok () ∧
    ∃ trees : List Tree, trees.map Tree.flatten = convoy.messages ∧
      (∀ tree ∈ trees, IsMessage tree) ∧ convoy.outlines = .ok (trees.map Tree.outline) := by
  have verified : convoy.verify = .ok () := Outcome.eq_ok_of_isOk (by decide +kernel)
  exact ⟨verified, outlines_of_verify verified⟩

end Schema

end Sbe
