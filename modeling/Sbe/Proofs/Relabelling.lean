import Sbe.Proofs.Partition
import Sbe.Proofs.Scans

/-!
**Layouts under a change of tokens.**

Taking streams apart looks at the signals, names and counts of tokens and at nothing else. A change
that keeps those three can be made before or after.

* `Relabels`: such a change;
* `decomposeMessage_map`: the body of a message;
* `splitFields_map`, `splitGroups_map`, `splitVarData_map`: the elements of a run.
-/

namespace Sbe

/-- A change of tokens that keeps their signals, names and counts. -/
structure Relabels (image : Token → Token) : Prop where
  signal (token : Token) : (image token).signal = token.signal
  name (token : Token) : (image token).name = token.name
  span (token : Token) : (image token).span = token.span

/-- A body with every token changed. -/
def Body.map (image : Token → Token) (body : Body) : Body :=
  ⟨body.fields.map image, body.groups.map image, body.varData.map image, body.nextIndex⟩

/-- A field with every token changed. -/
def FieldLayout.map (image : Token → Token) (layout : FieldLayout) : FieldLayout :=
  ⟨image layout.field, layout.type.map image⟩

/-- A group with every token changed. -/
@[simps] def GroupLayout.map (image : Token → Token) (layout : GroupLayout) : GroupLayout :=
  ⟨image layout.group, image layout.dimensions, image layout.blockLength, image layout.numInGroup,
    layout.body.map image⟩

/-- A field of variable length with every token changed. -/
@[simps] def VarDataLayout.map (image : Token → Token) (layout : VarDataLayout) : VarDataLayout :=
  ⟨image layout.varData, image layout.length, image layout.data⟩

namespace Layout

section

variable {image : Token → Token} (relabels : Relabels image)
include relabels

theorem misplaced_map (expected : Signal) (token : Token) :
    misplaced expected (image token) = misplaced expected token := by
  rw [misplaced, misplaced, relabels.signal, relabels.name]

theorem splitSpan_map (index : Nat) (token : Token) (rest : List Token) :
    splitSpan index (image token) (rest.map image) =
      (splitSpan index token rest).map (Prod.map (List.map image) (List.map image)) := by
  unfold splitSpan
  simp only [relabels.signal, relabels.name, relabels.span, List.length_map, ← List.map_take,
    ← List.map_drop]
  split
  · rfl
  · split
    · rfl
    · split
      · rfl
      · rfl

theorem collect_map (signal : Signal) (index : Nat) (tokens : List Token) :
    collect signal index (tokens.map image) =
      (collect signal index tokens).map (Prod.map (List.map image) (List.map image)) := by
  induction index, tokens using scan_induct with
  | nil index => simp [collect, Except.map]
  | cons index token rest ih =>
    rw [List.map_cons, collect_eq, collect_eq, relabels.signal]
    split
    · refine Outcome.bind_eq_map (splitSpan_map relabels index token rest) fun parts split => ?_
      rw [Prod.map_fst, Prod.map_snd, List.length_map]
      refine Outcome.bind_eq_map (ih _ parts.2 (splitSpan_length split)) fun taken _ => ?_
      simp [Except.map, Prod.map]
    · rfl

theorem collectAt_map (signal : Signal) (tokens : List Token) (index : Nat) :
    collectAt signal (tokens.map image) index =
      (collectAt signal tokens index).map (Prod.map (List.map image) id) := by
  unfold collectAt
  rw [List.length_map, ← List.map_drop]
  split
  · rfl
  · refine Outcome.bind_eq_map (collect_map relabels _ _ _) fun parts _ => ?_
    simp [Except.map, Prod.map]

theorem decompose_map (tokens : List Token) (index : Nat) :
    decompose (tokens.map image) index = (decompose tokens index).map (Body.map image) := by
  unfold decompose
  refine Outcome.bind_eq_map (collectAt_map relabels _ tokens index) fun fields _ => ?_
  refine Outcome.bind_eq_map (collectAt_map relabels _ tokens fields.2) fun groups _ => ?_
  exact Outcome.bind_eq_map (collectAt_map relabels _ tokens groups.2) fun varData _ => rfl

theorem decomposeAll_map (tokens : List Token) :
    decomposeAll (tokens.map image) = (decomposeAll tokens).map (Body.map image) := by
  unfold decomposeAll
  refine Outcome.bind_eq_map (decompose_map relabels tokens 0) fun body _ => ?_
  have next : (body.map image).nextIndex = body.nextIndex := rfl
  rw [next, List.getElem?_map]
  cases tokens[body.nextIndex]? with
  | none => rfl
  | some extra =>
    simp only [Option.map_some, relabels.name, relabels.signal]
    rfl

theorem closedSpan_map (index : Nat) (token : Token) (rest : List Token) :
    closedSpan index (image token) (rest.map image) =
      (closedSpan index token rest).map (Prod.map (List.map image) (List.map image)) := by
  unfold closedSpan
  rw [relabels.signal, relabels.name]
  cases token.signal.closing? with
  | none => rfl
  | some closing =>
    refine Outcome.bind_eq_map (splitSpan_map relabels index token rest) fun parts _ => ?_
    have last : ((parts.1.map image).getLast?.getD (image token)).signal =
        (parts.1.getLast?.getD token).signal := by
      rw [List.getLast?_map]
      cases parts.1.getLast? with
      | none => exact relabels.signal token
      | some last => exact relabels.signal last
    simp only [Prod.map, last, List.length_map]
    split
    · simp [List.map_tail, List.map_dropLast, Except.map]
    · rfl

theorem messageBody_map (tokens : List Token) :
    messageBody (tokens.map image) = (messageBody tokens).map (List.map image) := by
  cases tokens with
  | nil => rfl
  | cons first rest =>
    simp only [List.map_cons, messageBody, relabels.signal, misplaced_map relabels, ne_eq,
      List.map_eq_nil_iff]
    split
    · rw [← List.map_dropLast]
      rfl
    · rfl

theorem decomposeMessage_map (tokens : List Token) :
    decomposeMessage (tokens.map image) = (decomposeMessage tokens).map (Body.map image) :=
  Outcome.bind_eq_map (messageBody_map relabels tokens)
    fun inner _ => decomposeAll_map relabels inner

theorem encodingAt_map (tokens : List Token) (offset limit : Nat) :
    encodingAt (tokens.map image) offset limit = (encodingAt tokens offset limit).map image := by
  unfold encodingAt
  rw [List.getElem?_map, List.getLast?_map]
  cases tokens[offset]? with
  | some token =>
    simp only [Option.map_some, relabels.signal, misplaced_map relabels]
    split
    · rfl
    · rfl
  | none =>
    cases tokens.getLast? with
    | none => rfl
    | some last =>
      simp only [Option.map_some, Option.map_none, misplaced_map relabels]
      rfl

theorem groupLayout_map (index : Nat) (token : Token) (inner rest : List Token) :
    groupLayout index (image token) (inner.map image) (rest.map image) =
      (groupLayout index token inner rest).map (GroupLayout.map image) := by
  cases rest with
  | nil => rfl
  | cons dimensions others =>
    simp only [List.map_cons, groupLayout, relabels.signal, relabels.name, misplaced_map relabels]
    split
    · rfl
    · refine Outcome.bind_eq_map (closedSpan_map relabels _ dimensions others) fun parts _ => ?_
      simp only [Prod.map, List.length_map]
      split
      · rfl
      · rw [← List.map_cons, ← List.map_cons, ← List.map_drop]
        refine Outcome.bind_eq_map (encodingAt_map relabels _ _ _) fun blockLength _ => ?_
        refine Outcome.bind_eq_map (encodingAt_map relabels _ _ _) fun numInGroup _ => ?_
        exact Outcome.bind_eq_map (decomposeAll_map relabels _) fun body _ => rfl

/-- Elements can be opened before or after a change that their layouts follow. -/
theorem Scans.map {α : Type} {opening : Signal}
    {lay : Nat → Token → List Token → List Token → Result α}
    {scan : Nat → List Token → Result (List α)} (scans : Scans opening lay scan) {final : α → α}
    (each : ∀ index token inner rest, lay index (image token) (inner.map image) (rest.map image) =
      (lay index token inner rest).map final) (index : Nat) (tokens : List Token) :
    scan index (tokens.map image) = (scan index tokens).map (List.map final) := by
  induction index, tokens using scan_induct with
  | nil index =>
    rw [List.map_nil, scans.nil]
    rfl
  | cons index token rest ih =>
    rw [List.map_cons, scans.cons, scans.cons, relabels.signal, misplaced_map relabels]
    split
    · rfl
    · refine Outcome.bind_eq_map (closedSpan_map relabels index token rest) fun parts split => ?_
      rw [Prod.map_fst, Prod.map_snd, List.length_map]
      refine Outcome.bind_eq_map (each index token parts.1 rest) fun first _ => ?_
      exact Outcome.bind_eq_map (ih _ parts.2 (closedSpan_length split).2) fun others _ => rfl

theorem splitFields_map (index : Nat) (tokens : List Token) :
    splitFields index (tokens.map image) =
      (splitFields index tokens).map (List.map (FieldLayout.map image)) :=
  scans_splitFields.map relabels (fun _ _ _ _ => rfl) index tokens

theorem splitGroups_map (index : Nat) (tokens : List Token) :
    splitGroups index (tokens.map image) =
      (splitGroups index tokens).map (List.map (GroupLayout.map image)) :=
  scans_splitGroups.map relabels (groupLayout_map relabels) index tokens

theorem splitVarData_map (index : Nat) (tokens : List Token) :
    splitVarData index (tokens.map image) =
      (splitVarData index tokens).map (List.map (VarDataLayout.map image)) := by
  refine scans_splitVarData.map relabels (fun _ token inner rest => ?_) index tokens
  unfold varDataLayout
  rw [← List.map_cons, List.length_map]
  refine Outcome.bind_eq_map (encodingAt_map relabels _ _ _) fun length _ => ?_
  exact Outcome.bind_eq_map (encodingAt_map relabels _ _ _) fun data _ => rfl

end

end Layout

end Sbe
