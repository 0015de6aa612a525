import Sbe.Layout.Outline
import Sbe.Proofs.Scans
import Sbe.Proofs.SchemaDescription

/-!
**Decomposition gives back what was built.**

The streams of a description are taken apart into the fields, groups and fields of variable length
it lists, in their order and at every depth.

* `closedSpan_enclose`: one enclosed element;
* `collect_built`, `scan_built`: a run of them, taken as a whole and opened one by one;
* `decomposeAll_body`: the three runs of a body;
* `found_runs`: the elements of the runs, group by group;
* `ofBody_eq_outline`: the outline of a body.
-/

namespace Sbe.Build

open Layout

/-! ### Spans -/

theorem enclose_append (opening : Token) (inner after : List Token) :
    enclose opening inner ++ after =
      opened opening inner :: (inner ++ closed opening inner :: after) := by
  rw [enclose_eq, List.cons_append, List.append_assoc]
  rfl

theorem splitSpan_enclose {opening : Token} {inner : List Token} {index : Nat}
    (fits : index + (enclose opening inner).length < wordBound) (after : List Token) :
    splitSpan index (opened opening inner) (inner ++ closed opening inner :: after) =
      .ok (enclose opening inner, after) := by
  have size := length_enclose opening inner
  have count := span_opened opening (Nat.lt_of_le_of_lt (Nat.le_add_left _ index) fits)
  have parts : inner ++ closed opening inner :: after =
      (inner ++ [closed opening inner]) ++ after := by
    rw [List.append_assoc]
    rfl
  have length : inner.length + 2 - 1 = (inner ++ [closed opening inner]).length := by
    rw [List.length_append]
    rfl
  rw [splitSpan, count, if_neg (by omega), if_neg (by omega), if_neg, parts, length, List.take_left,
    List.drop_left, enclose_eq]
  rw [List.length_append, List.length_cons]
  omega

theorem closedSpan_enclose {opening : Token} {closing : Signal} {inner : List Token} {index : Nat}
    (fits : index + (enclose opening inner).length < wordBound)
    (closes : opening.signal.closing? = some closing) (after : List Token) :
    closedSpan index (opened opening inner) (inner ++ closed opening inner :: after) =
      .ok (inner, after) := by
  have last : (enclose opening inner).getLast? = some (closed opening inner) := by
    rw [enclose_eq, ← List.cons_append, List.getLast?_concat]
  have middle : (enclose opening inner).tail.dropLast = inner := by
    rw [enclose_eq, List.tail_cons, List.dropLast_concat]
  rw [closedSpan, closing?_opened closes]
  dsimp only
  rw [splitSpan_enclose fits, Outcome.ok_bind]
  dsimp only
  rw [last, Option.getD_some, if_pos rfl, middle]
  rfl

/-! ### Runs -/

theorem collect_cons {signal : Signal} {index : Nat} {token : Token}
    {rest element after : List Token} (opens : token.signal = signal)
    (split : splitSpan index token rest = .ok (element, after)) :
    collect signal index (token :: rest) = (do
      let (taken, remaining) ← collect signal (index + element.length) after
      pure (element ++ taken, remaining)) := by
  rw [collect_eq, if_pos opens, split]
  rfl

section Runs

variable {α : Type} {tokens : α → List Token} {opening : α → Token} {inner : α → List Token}
  {signal : Signal} (built : ∀ item, tokens item = enclose (opening item) (inner item))
  (opens : ∀ item, (opening item).signal = signal)
include built opens

/-- A run of elements ends before what opens with another signal. -/
theorem collect_built {items : List α} {rest : List Token}
    (stops : ∀ token ∈ rest.head?, token.signal ≠ signal) {index : Nat}
    (fits : index + (items.map tokens).flatten.length < wordBound) :
    collect signal index ((items.map tokens).flatten ++ rest) =
      .ok ((items.map tokens).flatten, rest) := by
  induction items generalizing index with
  | nil =>
    cases rest with
    | nil =>
      rw [List.map_nil, List.flatten_nil, List.nil_append, collect]
    | cons token rest =>
      rw [List.map_nil, List.flatten_nil, List.nil_append, collect, if_neg (stops token rfl)]
  | cons item items ih =>
    rw [List.map_cons, List.flatten_cons, List.length_append] at fits
    have small : index + (enclose (opening item) (inner item)).length < wordBound := by
      rw [← built]
      omega
    have span := splitSpan_enclose small ((items.map tokens).flatten ++ rest)
    have first : (opened (opening item) (inner item)).signal = signal := opens item
    rw [List.map_cons, List.flatten_cons, List.append_assoc, built, enclose_append,
      collect_cons first span, ← built, ih (by omega)]
    rfl

/-- A run of elements is opened one by one. -/
theorem scan_built {β : Type} {lay : Nat → Token → List Token → List Token → Result β}
    {scan : Nat → List Token → Result (List β)} (scans : Scans signal lay scan) {closing : Signal}
    (closes : signal.closing? = some closing) {layout : α → β}
    (each : ∀ item index after, index + (inner item).length + 2 < wordBound →
      lay index (opened (opening item) (inner item)) (inner item)
        (inner item ++ closed (opening item) (inner item) :: after) = .ok (layout item))
    {items : List α} {index : Nat} (fits : index + (items.map tokens).flatten.length < wordBound) :
    scan index (items.map tokens).flatten = .ok (items.map layout) := by
  induction items generalizing index with
  | nil => rw [List.map_nil, List.flatten_nil, scans.nil, List.map_nil]
  | cons item items ih =>
    rw [List.map_cons, List.flatten_cons, List.length_append, built] at fits
    have size := length_enclose (opening item) (inner item)
    have small : index + (enclose (opening item) (inner item)).length < wordBound := by omega
    have first : (opened (opening item) (inner item)).signal = signal := opens item
    have span := closedSpan_enclose small (by rw [opens, closes]) (items.map tokens).flatten
    rw [List.map_cons, List.flatten_cons, built, enclose_append, scans.of_span first span,
      each item index _ (by omega), Outcome.ok_bind, ih (by omega)]
    rfl

/-- A run of elements opens with their signal. -/
theorem signal_ne_of_mem_head? (items : List α) {rest : List Token} {other : Signal}
    (differ : signal ≠ other) (after : ∀ token ∈ rest.head?, token.signal ≠ other) :
    ∀ token ∈ ((items.map tokens).flatten ++ rest).head?, token.signal ≠ other := by
  cases items with
  | nil => exact after
  | cons item items =>
    rw [List.map_cons, List.flatten_cons, List.append_assoc, built, enclose_append, List.head?_cons]
    intro token member
    cases member
    rw [← opens item] at differ
    exact differ

end Runs

/-! ### Layouts -/

/-- The layout of a field. -/
def FieldDescription.layout (field : FieldDescription) : FieldLayout :=
  ⟨opened field.opening field.typeTokens, field.typeTokens⟩

/-- The layout of a field of variable length. -/
def VarDataDescription.layout (varData : VarDataDescription) : VarDataLayout :=
  ⟨opened varData.opening varData.composite.type.tokens, varData.composite.first.token,
    varData.composite.second.token⟩

/-- The three runs of a body. -/
def BodyDescription.runs (body : BodyDescription) : Body where
  fields := (body.fields.map FieldDescription.tokens).flatten
  groups := (body.groups.map GroupDescription.tokens).flatten
  varData := (body.varData.map VarDataDescription.tokens).flatten
  nextIndex := body.tokens.flatten.length

/-- The layout of a group. -/
def GroupDescription.layout (group : GroupDescription) : GroupLayout where
  group := opened group.head.opening
    (group.head.dimensions.type.tokens ++ group.body.tokens.flatten)
  dimensions := opened group.head.dimensions.type.opening group.head.dimensions.inner
  blockLength := group.head.dimensions.first.token
  numInGroup := group.head.dimensions.second.token
  body := group.body.runs

theorem splitFields_built {fields : List FieldDescription} {index : Nat}
    (fits : index + (fields.map FieldDescription.tokens).flatten.length < wordBound) :
    splitFields index (fields.map FieldDescription.tokens).flatten =
      .ok (fields.map FieldDescription.layout) :=
  scan_built FieldDescription.tokens_eq (fun _ => rfl) scans_splitFields rfl (fun _ _ _ _ => rfl)
    fits

theorem encodingAt_of_signal {tokens : List Token} {offset limit : Nat} {token : Token}
    (found : tokens[offset]? = some token) (inside : offset < limit)
    (signal : token.signal = .encoding) : encodingAt tokens offset limit = .ok token := by
  rw [encodingAt, found]
  exact if_pos ⟨inside, signal⟩

/-- The two encodings that a composite starts with are found behind its parent. -/
theorem encodingAt_pair (token : Token) (pair : PairDescription) (after : List Token) {limit : Nat}
    (inside : pair.inner.length + 2 ≤ limit) :
    encodingAt (token :: (pair.type.tokens ++ after)) 2 limit = .ok pair.first.token ∧
      encodingAt (token :: (pair.type.tokens ++ after)) 3 limit = .ok pair.second.token := by
  have long : 2 ≤ pair.inner.length := by
    rw [PairDescription.inner, List.length_cons, List.length_cons]
    omega
  rw [pair.tokens_type, enclose_append]
  refine ⟨encodingAt_of_signal ?_ (by omega) pair.first.token_eq.1,
    encodingAt_of_signal ?_ (by omega) pair.second.token_eq.1⟩
  · rfl
  · rfl

theorem splitVarData_built {varData : List VarDataDescription} {index : Nat}
    (fits : index + (varData.map VarDataDescription.tokens).flatten.length < wordBound) :
    splitVarData index (varData.map VarDataDescription.tokens).flatten =
      .ok (varData.map VarDataDescription.layout) := by
  refine scan_built VarDataDescription.tokens_eq (fun _ => rfl) scans_splitVarData rfl
    (fun data _ after _ => ?_) fits
  have limit : data.composite.inner.length + 2 ≤ data.composite.type.tokens.length + 1 := by
    rw [data.composite.tokens_type, length_enclose]
    omega
  obtain ⟨length, bytes⟩ := encodingAt_pair (opened data.opening data.composite.type.tokens)
    data.composite (closed data.opening data.composite.type.tokens :: after) limit
  rw [varDataLayout, length, bytes]
  rfl

/-! ### Bodies -/

theorem collectAt_append_of_collect {signal : Signal} {before taken rest : List Token}
    (found : collect signal before.length (taken ++ rest) = .ok (taken, rest)) :
    collectAt signal (before ++ (taken ++ rest)) before.length =
      .ok (taken, before.length + taken.length) := by
  have inside : ¬ (before ++ (taken ++ rest)).length < before.length := by
    rw [List.length_append]
    omega
  rw [collectAt, if_neg inside, List.drop_left, found]
  rfl

theorem decomposeAll_of_collect {fields groups varData : List Token}
    (fieldsFound : collect .beginField 0 (fields ++ (groups ++ varData)) =
      .ok (fields, groups ++ varData))
    (groupsFound : collect .beginGroup fields.length (groups ++ varData) = .ok (groups, varData))
    (varDataFound : collect .beginVarData (fields ++ groups).length (varData ++ []) =
      .ok (varData, [])) :
    decomposeAll (fields ++ (groups ++ varData)) =
      .ok ⟨fields, groups, varData, (fields ++ (groups ++ varData)).length⟩ := by
  have first : collectAt .beginField (fields ++ (groups ++ varData)) 0 =
      .ok (fields, fields.length) := by
    have found := @collectAt_append_of_collect .beginField [] _ _ fieldsFound
    rwa [List.nil_append, List.length_nil, Nat.zero_add] at found
  have second := collectAt_append_of_collect groupsFound
  have third := collectAt_append_of_collect varDataFound
  rw [List.append_nil, List.append_assoc, List.length_append] at third
  have whole : fields.length + groups.length + varData.length =
      (fields ++ (groups ++ varData)).length := by
    rw [List.length_append, List.length_append, Nat.add_assoc]
  rw [decomposeAll, decompose, first, Outcome.ok_bind]
  dsimp only
  rw [second, Outcome.ok_bind]
  dsimp only
  rw [third, Outcome.ok_bind]
  dsimp only
  rw [Outcome.pure_eq_ok, Outcome.ok_bind, whole]
  dsimp only
  rw [List.getElem?_eq_none (Nat.le_refl _)]
  rfl

/-- A body is taken apart into its three runs. -/
theorem decomposeAll_body {body : BodyDescription}
    (fits : body.tokens.flatten.length < wordBound) :
    decomposeAll body.tokens.flatten = .ok body.runs := by
  obtain ⟨fields, groups, varData⟩ := body
  have whole : (BodyDescription.mk fields groups varData).tokens.flatten =
      (fields.map FieldDescription.tokens).flatten ++
        ((groups.map GroupDescription.tokens).flatten ++
          (varData.map VarDataDescription.tokens).flatten) := by
    rw [BodyDescription.tokens, List.flatten_append, List.flatten_append, List.append_assoc]
  have sizes := congrArg List.length whole
  rw [List.length_append, List.length_append] at sizes
  have ended : ∀ other : Signal, ∀ token ∈ ([] : List Token).head?, token.signal ≠ other :=
    fun _ token member => by cases member
  -- What follows a run opens with another signal: that of a later run.
  have noGroup := signal_ne_of_mem_head? VarDataDescription.tokens_eq (fun _ => rfl) varData
    (show Signal.beginVarData ≠ .beginGroup by decide) (ended _)
  have noField := signal_ne_of_mem_head? GroupDescription.tokens_eq (fun _ => rfl) groups
    (show Signal.beginGroup ≠ .beginField by decide)
    (signal_ne_of_mem_head? VarDataDescription.tokens_eq (fun _ => rfl) varData
      (show Signal.beginVarData ≠ .beginField by decide) (ended _))
  rw [List.append_nil] at noGroup noField
  rw [BodyDescription.runs, whole]
  refine decomposeAll_of_collect ?_ ?_ ?_
  · exact collect_built FieldDescription.tokens_eq (fun _ => rfl) noField (by omega)
  · exact collect_built GroupDescription.tokens_eq (fun _ => rfl) noGroup (by omega)
  · refine collect_built VarDataDescription.tokens_eq (fun _ => rfl) (ended _) ?_
    rw [List.length_append]
    omega

/-! ### Groups -/

theorem groupLayout_built {pair : PairDescription} {body : BodyDescription} {index : Nat}
    (fits : index + 2 + (pair.type.tokens ++ body.tokens.flatten).length < wordBound)
    (token : Token) (after : List Token) :
    groupLayout index token (pair.type.tokens ++ body.tokens.flatten)
      (pair.type.tokens ++ body.tokens.flatten ++ after) =
      .ok ⟨token, opened pair.type.opening pair.inner, pair.first.token, pair.second.token,
        body.runs⟩ := by
  have size : pair.type.tokens.length = pair.inner.length + 2 := by
    rw [pair.tokens_type, length_enclose]
  rw [List.length_append] at fits
  have small : index + 1 + (enclose pair.type.opening pair.inner).length < wordBound := by
    rw [← pair.tokens_type]
    omega
  have span := closedSpan_enclose small rfl (body.tokens.flatten ++ after)
  obtain ⟨blockLength, numInGroup⟩ := encodingAt_pair token pair (body.tokens.flatten ++ after)
    (Nat.le_refl _)
  have rest : pair.type.tokens ++ body.tokens.flatten ++ after =
      opened pair.type.opening pair.inner ::
        (pair.inner ++ closed pair.type.opening pair.inner :: (body.tokens.flatten ++ after)) := by
    rw [List.append_assoc, pair.tokens_type, enclose_append]
  rw [← List.append_assoc, rest] at blockLength numInGroup
  have opens : ¬ (opened pair.type.opening pair.inner).signal ≠ .beginComposite :=
    not_not_intro rfl
  rw [rest, groupLayout]
  dsimp only
  rw [if_neg opens, span, Outcome.ok_bind]
  dsimp only
  rw [if_neg (by rw [List.length_append]; omega), blockLength, numInGroup, ← size, List.drop_left,
    decomposeAll_body (by omega)]
  rfl

theorem splitGroups_built {groups : List GroupDescription} {index : Nat}
    (fits : index + (groups.map GroupDescription.tokens).flatten.length < wordBound) :
    splitGroups index (groups.map GroupDescription.tokens).flatten =
      .ok (groups.map GroupDescription.layout) := by
  refine scan_built GroupDescription.tokens_eq (fun _ => rfl) scans_splitGroups rfl
    (fun group _ after small => ?_) fits
  exact groupLayout_built (by omega) _ _

/-! ### All depths -/

/-- A body that is taken apart into the elements of a description, each of whose groups has a body
that is taken apart in the same way. -/
inductive BodyDescription.Found : BodyDescription → Body → Prop where
  | intro {description : BodyDescription} {body : Body}
      (fields : splitFields 0 body.fields = .ok (description.fields.map FieldDescription.layout))
      (groups : splitGroups 0 body.groups = .ok (description.groups.map GroupDescription.layout))
      (varData : splitVarData 0 body.varData =
        .ok (description.varData.map VarDataDescription.layout))
      (inside : ∀ group ∈ description.groups, group.body.Found group.layout.body) :
      description.Found body

theorem BodyDescription.found_of_groups {body : BodyDescription}
    (fits : body.tokens.flatten.length < wordBound)
    (groups : ∀ group ∈ body.groups, group.tokens.length < wordBound →
      group.body.Found group.body.runs) : body.Found body.runs := by
  have sizes : (body.fields.map FieldDescription.tokens).flatten.length +
      (body.groups.map GroupDescription.tokens).flatten.length +
      (body.varData.map VarDataDescription.tokens).flatten.length = body.tokens.flatten.length := by
    rw [tokens, List.flatten_append, List.flatten_append, List.length_append, List.length_append]
  refine .intro (splitFields_built (by omega)) (splitGroups_built (by omega))
    (splitVarData_built (by omega)) fun group member => groups group member ?_
  exact (forall_mem_tokens.mp (length_lt_of_fits fits)).2.1 group member

theorem GroupDescription.found_runs {group : GroupDescription}
    (fits : group.tokens.length < wordBound) : group.body.Found group.body.runs := by
  induction group with
  | group head fields groups varData ih =>
    rw [tokens_eq, length_enclose, List.length_append] at fits
    exact BodyDescription.found_of_groups (by omega) ih

/-- A message is taken apart into its elements, at all depths. -/
theorem MessageDescription.found_runs {message : MessageDescription}
    (fits : message.tokens.length < wordBound) :
    decomposeMessage message.tokens = .ok message.body.runs ∧
      message.body.Found message.body.runs := by
  rw [tokens_eq, length_enclose] at fits
  refine ⟨?_, BodyDescription.found_of_groups (by omega) fun _ _ => GroupDescription.found_runs⟩
  rw [tokens_eq, enclose_eq, decomposeMessage, messageBody, if_pos ⟨rfl, by simp⟩, Outcome.ok_bind,
    List.dropLast_concat]
  exact decomposeAll_body (by omega)

/-! ### Outlines -/

/-- The outline of a group. -/
def GroupDescription.outline : GroupDescription → Outline
  | group head fields groups varData =>
    .body head.name head.id head.version head.blockLength (fields.map FieldDescription.name)
      (groups.map outline) (varData.map VarDataDescription.name)

/-- The outline of a body that a token opens. -/
def BodyDescription.outline (body : BodyDescription) (token : Token) : Outline :=
  .body token.name token.id token.version token.encodedLength
    (body.fields.map FieldDescription.name) (body.groups.map GroupDescription.outline)
    (body.varData.map VarDataDescription.name)

/-- The outline of a message, which has been there from version 0 on. -/
def MessageDescription.outline (message : MessageDescription) : Outline :=
  .body message.name message.id 0 message.blockLength
    (message.body.fields.map FieldDescription.name)
    (message.body.groups.map GroupDescription.outline)
    (message.body.varData.map VarDataDescription.name)

theorem GroupDescription.outline_eq (group : GroupDescription) :
    group.outline = group.body.outline group.layout.group := by
  cases group with
  | group => rw [outline]; rfl

theorem ofBody_eq_outline {description : BodyDescription} {body : Body}
    (found : description.Found body) (token : Token) :
    Outline.ofBody token body = .ok (description.outline token) := by
  induction found generalizing token with
  | @intro description body fields groups varData inside ih =>
    have each : ((description.groups.map GroupDescription.layout).mapM
        fun layout => Outline.ofBody layout.group layout.body) =
          .ok (description.groups.map GroupDescription.outline) := by
      rw [List.mapM_map]
      refine Outcome.mapM_eq_ok fun group member => ?_
      rw [group.outline_eq]
      exact ih group member _
    rw [Outline.ofBody_eq_ok fields groups each varData, List.map_map, List.map_map]
    rfl

theorem MessageDescription.ofMessage_eq_outline {message : MessageDescription}
    (fits : message.tokens.length < wordBound) :
    Outline.ofMessage message.tokens = .ok message.outline := by
  obtain ⟨decomposed, found⟩ := found_runs fits
  rw [Outline.ofMessage, decomposed, Outcome.ok_bind, tokens_eq, enclose_eq]
  exact ofBody_eq_outline found _

end Sbe.Build
