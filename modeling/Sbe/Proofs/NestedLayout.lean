import Mathlib.Data.List.TakeWhile
import Sbe.Proofs.Accepted
import Sbe.Proofs.Nesting
import Sbe.Proofs.Partition
import Sbe.Proofs.Scans

/-!
**Layouts of well-nested streams.**

A stream is taken apart only after its spans have been checked, so decomposition meets nothing but
the streams of well-nested trees, whose opening tokens count their own trees. On those it never
faults: a scan passes over whole trees, and what stands in a wrong place is refused.

* `collect_flattenAll`, `splitFields_flattenAll`: scans of the streams of trees;
* `Nested`: bodies whose runs are streams of trees;
* `groupLayout_answers`, `splitGroups_answers`: such bodies are all that is found, at every depth;
* `verifyBody_answers`, `decomposeMessage_answers`: so their tests end with an answer.
-/

namespace Sbe

open Outcome (Answers)

namespace Span.Tree

theorem flattenAll_append (trees others : List Tree) :
    flattenAll (trees ++ others) = flattenAll trees ++ flattenAll others := by
  induction trees with
  | nil => rw [List.nil_append, flattenAll, List.nil_append]
  | cons tree rest ih =>
    rw [List.cons_append, flattenAll_cons, flattenAll_cons, ih, List.append_assoc]

theorem WellNested.children {tree : Tree} (nested : tree.WellNested) :
    ∀ child ∈ tree.children, child.WellNested := by
  cases nested with
  | leaf =>
    intro child member
    cases member
  | node _ _ _ inside => exact inside

/-- A well-nested tree that opens an element ends in a token that closes it, and counts its
tokens. -/
theorem WellNested.flatten_of_opens {tree : Tree} (nested : tree.WellNested)
    (opens : tree.first.signal.isBegin = true) :
    ∃ closing : Token, tree.first.signal.closing? = some closing.signal ∧
      tree.flatten = tree.first :: (flattenAll tree.children ++ [closing]) ∧
      tree.first.span = (flattenAll tree.children).length + 2 := by
  cases nested with
  | leaf single =>
    rw [Tree.first, single] at opens
    cases opens
  | @node opening closing children closes _ counted _ =>
    rw [length_flatten_node] at counted
    exact ⟨closing, closes, flatten_node opening closing children, counted⟩

theorem WellNested.length_flatten_of_opens {tree : Tree} (nested : tree.WellNested)
    (opens : tree.first.signal.isBegin = true) :
    tree.flatten.length = (flattenAll tree.children).length + 2 := by
  obtain ⟨closing, _, tokens, _⟩ := nested.flatten_of_opens opens
  rw [tokens, List.length_cons, List.length_append, List.length_singleton]

/-- A well-nested tree has no more tokens than its first token can count. -/
theorem WellNested.length_flatten_lt {tree : Tree} (nested : tree.WellNested) :
    tree.flatten.length < wordBound := by
  cases nested with
  | leaf => exact of_decide_eq_true rfl
  | @node opening _ _ _ _ counted =>
    rw [← counted]
    exact opening.componentTokenCount.toNat_lt

end Span.Tree

namespace Layout

open Sbe.Span (Tree)
open Sbe.Span.Tree (flattenAll)

/-! ### Spans -/

section Spans

variable {tree : Tree} (nested : tree.WellNested) (opens : tree.first.signal.isBegin = true)
  {index : Nat} (fits : index + tree.flatten.length < wordBound) (after : List Token)
include nested opens fits

theorem splitSpan_flatten :
    splitSpan index tree.first (tree.flatten.tail ++ after) = .ok (tree.flatten, after) := by
  obtain ⟨_, _, _, counted⟩ := nested.flatten_of_opens opens
  have size : tree.first.span = tree.flatten.length := by
    rw [counted, nested.length_flatten_of_opens opens]
  have whole : tree.first :: (tree.flatten.tail ++ after) = tree.flatten ++ after := by
    rw [← List.cons_append, ← Tree.flatten_eq_cons]
  have total : (tree.flatten.tail ++ after).length + 1 = tree.flatten.length + after.length := by
    rw [← List.length_cons, whole, List.length_append]
  rw [splitSpan_eq_ok_iff, size, whole, List.take_left, List.drop_left]
  refine ⟨⟨?_, ?_⟩, fits, rfl, rfl⟩
  · omega
  · omega

theorem closedSpan_flatten :
    closedSpan index tree.first (tree.flatten.tail ++ after) =
      .ok (flattenAll tree.children, after) := by
  obtain ⟨closing, closes, tokens, _⟩ := nested.flatten_of_opens opens
  have last : tree.flatten.getLast? = some closing := by
    rw [tokens, ← List.cons_append, List.getLast?_concat]
  have middle : tree.flatten.tail.dropLast = flattenAll tree.children := by
    rw [tokens, List.tail_cons, List.dropLast_concat]
  rw [closedSpan, closes]
  dsimp only
  rw [splitSpan_flatten nested opens fits, Outcome.ok_bind]
  dsimp only
  rw [last, Option.getD_some, if_pos rfl, middle]
  rfl

end Spans

/-! ### Runs -/

/-- Well-nested trees that all open with one signal. -/
structure IsForest (signal : Signal) (trees : List Tree) : Prop where
  nested : ∀ tree ∈ trees, tree.WellNested
  opens : ∀ tree ∈ trees, tree.first.signal = signal

theorem IsForest.cons {signal : Signal} {tree : Tree} {rest : List Tree}
    (forest : IsForest signal (tree :: rest)) :
    tree.WellNested ∧ tree.first.signal = signal ∧ IsForest signal rest := by
  obtain ⟨first, later⟩ := List.forall_mem_cons.mp forest.nested
  obtain ⟨opens, others⟩ := List.forall_mem_cons.mp forest.opens
  exact ⟨first, opens, later, others⟩

/-- A scan takes the trees up to the first that opens with another signal. -/
theorem collect_flattenAll {signal : Signal} (begins : signal.isBegin = true) {trees : List Tree}
    (nested : ∀ tree ∈ trees, tree.WellNested) {index : Nat}
    (fits : index + (flattenAll trees).length < wordBound) :
    collect signal index (flattenAll trees) =
      .ok (flattenAll (trees.takeWhile fun tree => tree.first.signal = signal),
        flattenAll (trees.dropWhile fun tree => tree.first.signal = signal)) := by
  induction trees generalizing index with
  | nil =>
    rw [flattenAll, collect]
    rfl
  | cons tree rest ih =>
    obtain ⟨first, later⟩ := List.forall_mem_cons.mp nested
    rw [Tree.flattenAll_cons, List.length_append] at fits
    rw [Tree.flattenAll_cons, Tree.flatten_eq_cons, List.cons_append, collect_eq]
    by_cases opens : tree.first.signal = signal
    · rw [if_pos opens, splitSpan_flatten first (by rw [opens, begins]) (by omega), Outcome.ok_bind]
      dsimp only
      rw [ih later (by omega), List.takeWhile_cons_of_pos (by simpa using opens),
        List.dropWhile_cons_of_pos (by simpa using opens), Tree.flattenAll_cons]
      rfl
    · rw [if_neg opens, List.takeWhile_cons_of_neg (by simpa using opens),
        List.dropWhile_cons_of_neg (by simpa using opens), Tree.flattenAll_cons, flattenAll,
        ← List.cons_append, ← Tree.flatten_eq_cons]

/-- A scan from the end of some trees on takes a run of the trees behind them. -/
theorem collectAt_flattenAll (signal : Signal) (begins : signal.isBegin = true)
    {whole before trees : List Tree} (split : whole = before ++ trees)
    (nested : ∀ tree ∈ whole, tree.WellNested) (fits : (flattenAll whole).length < wordBound) :
    ∃ run rest, whole = before ++ run ++ rest ∧ IsForest signal run ∧
      collectAt signal (flattenAll whole) (flattenAll before).length =
        .ok (flattenAll run, (flattenAll (before ++ run)).length) := by
  subst split
  have later : ∀ tree ∈ trees, tree.WellNested :=
    fun tree member => nested tree (List.mem_append_right before member)
  have size : (flattenAll (before ++ trees)).length =
      (flattenAll before).length + (flattenAll trees).length := by
    rw [Tree.flattenAll_append, List.length_append]
  rw [size] at fits
  refine ⟨trees.takeWhile fun tree => tree.first.signal = signal,
    trees.dropWhile fun tree => tree.first.signal = signal, ?_, ⟨?_, ?_⟩, ?_⟩
  · rw [List.append_assoc, List.takeWhile_append_dropWhile]
  · exact fun tree member => later tree (List.takeWhile_subset _ member)
  · exact fun tree member => by simpa using List.mem_takeWhile_imp member
  · rw [collectAt, if_neg (by omega), Tree.flattenAll_append before trees, List.drop_left,
      collect_flattenAll begins later fits, Outcome.ok_bind, Tree.flattenAll_append,
      List.length_append]
    rfl

section Scans

variable {α : Type} {opening : Signal} {lay : Nat → Token → List Token → List Token → Result α}
  {scan : Nat → List Token → Result (List α)} (scans : Scans opening lay scan)
  (begins : opening.isBegin = true) {tree : Tree} {trees : List Tree} {index : Nat}

include scans begins

/-- A scan opens the trees of a run one after another. -/
theorem Scans.flattenAll_cons (forest : IsForest opening (tree :: trees))
    (fits : index + (flattenAll (tree :: trees)).length < wordBound) :
    scan index (flattenAll (tree :: trees)) = (do
      let first ← lay index tree.first (flattenAll tree.children)
        (tree.flatten.tail ++ flattenAll trees)
      let others ← scan (index + tree.flatten.length) (flattenAll trees)
      pure (first :: others)) := by
  obtain ⟨first, opens, _⟩ := forest.cons
  have isBegin : tree.first.signal.isBegin = true := by rw [opens, begins]
  have whole : flattenAll (tree :: trees) =
      tree.first :: (tree.flatten.tail ++ flattenAll trees) := by
    rw [Tree.flattenAll_cons, ← List.cons_append, ← Tree.flatten_eq_cons]
  rw [Tree.flattenAll_cons, List.length_append] at fits
  rw [whole, scans.of_span opens (closedSpan_flatten first isBegin (by omega) _),
    first.length_flatten_of_opens isBegin, Nat.add_assoc]

/-- What all layouts of trees meet, all that a scan of them opens meets. -/
theorem Scans.answers {holds : α → Prop}
    (each : ∀ tree : Tree, tree.WellNested → tree.first.signal = opening →
      ∀ index after, index + tree.flatten.length < wordBound →
      Answers (lay index tree.first (flattenAll tree.children) (tree.flatten.tail ++ after)) holds)
    (forest : IsForest opening trees) (fits : index + (flattenAll trees).length < wordBound) :
    Answers (scan index (flattenAll trees)) fun layouts => ∀ layout ∈ layouts, holds layout := by
  induction trees generalizing index with
  | nil =>
    rw [flattenAll, scans.nil]
    intro layout member
    cases member
  | cons tree rest ih =>
    obtain ⟨first, opens, later⟩ := forest.cons
    rw [scans.flattenAll_cons begins forest fits]
    rw [Tree.flattenAll_cons, List.length_append] at fits
    refine (each tree first opens index _ (by omega)).bind fun layout found => ?_
    refine (ih later (by omega)).bind fun layouts others => ?_
    exact List.forall_mem_cons.mpr ⟨found, others⟩

end Scans

/-- The fields of a run are its trees. -/
theorem splitFields_flattenAll {trees : List Tree} (forest : IsForest .beginField trees)
    {index : Nat} (fits : index + (flattenAll trees).length < wordBound) :
    splitFields index (flattenAll trees) =
      .ok (trees.map fun tree => ⟨tree.first, flattenAll tree.children⟩) := by
  induction trees generalizing index with
  | nil =>
    rw [flattenAll, splitFields]
    rfl
  | cons tree rest ih =>
    rw [scans_splitFields.flattenAll_cons rfl forest fits]
    rw [Tree.flattenAll_cons, List.length_append] at fits
    rw [ih forest.cons.2.2 (by omega)]
    rfl

/-! ### Bodies -/

/-- The trees of a body are fields, groups and fields of variable length; what follows is
refused. -/
theorem decomposeAll_flattenAll {trees : List Tree} (nested : ∀ tree ∈ trees, tree.WellNested)
    (fits : (flattenAll trees).length < wordBound) :
    ∃ fields groups varData rest, trees = fields ++ groups ++ varData ++ rest ∧
      IsForest .beginField fields ∧ IsForest .beginGroup groups ∧ IsForest .beginVarData varData ∧
      decomposeAll (flattenAll trees) =
        match rest with
        | [] => .ok ⟨flattenAll fields, flattenAll groups, flattenAll varData,
            (flattenAll trees).length⟩
        | extra :: _ => .refuse (.unexpectedToken extra.first.name extra.first.signal
            (flattenAll (fields ++ groups ++ varData)).length) := by
  obtain ⟨fields, afterFields, fieldsSplit, isFields, fieldsTaken⟩ :=
    collectAt_flattenAll .beginField rfl (List.nil_append trees).symm nested fits
  rw [List.nil_append] at fieldsSplit fieldsTaken
  obtain ⟨groups, afterGroups, groupsSplit, isGroups, groupsTaken⟩ :=
    collectAt_flattenAll .beginGroup rfl fieldsSplit nested fits
  obtain ⟨varData, rest, split, isVarData, varDataTaken⟩ :=
    collectAt_flattenAll .beginVarData rfl groupsSplit nested fits
  have whole : decompose (flattenAll trees) 0 = .ok ⟨flattenAll fields, flattenAll groups,
      flattenAll varData, (flattenAll (fields ++ groups ++ varData)).length⟩ := by
    rw [decompose, show collectAt .beginField (flattenAll trees) 0 = _ from fieldsTaken,
      Outcome.ok_bind]
    dsimp only
    rw [groupsTaken, Outcome.ok_bind]
    dsimp only
    rw [varDataTaken]
    rfl
  refine ⟨fields, groups, varData, rest, split, isFields, isGroups, isVarData, ?_⟩
  rw [decomposeAll, whole, Outcome.ok_bind]
  dsimp only
  cases rest with
  | nil =>
    rw [List.append_nil] at split
    rw [← split, List.getElem?_eq_none (Nat.le_refl _)]
    rfl
  | cons extra others =>
    have next : (flattenAll trees)[(flattenAll (fields ++ groups ++ varData)).length]? =
        some extra.first := by
      rw [split, Tree.flattenAll_append, List.getElem?_append_right (Nat.le_refl _), Nat.sub_self,
        Tree.flattenAll_cons, Tree.flatten_eq_cons]
      rfl
    rw [next]

/-- A body whose runs are the streams of well-nested trees. -/
structure Nested (body : Body) : Prop where
  fields : ∃ trees, IsForest .beginField trees ∧ flattenAll trees = body.fields
  groups : ∃ trees, IsForest .beginGroup trees ∧ flattenAll trees = body.groups
  varData : ∃ trees, IsForest .beginVarData trees ∧ flattenAll trees = body.varData
  small : body.size < wordBound

theorem decomposeAll_answers {trees : List Tree} (nested : ∀ tree ∈ trees, tree.WellNested)
    (fits : (flattenAll trees).length < wordBound) :
    Answers (decomposeAll (flattenAll trees)) Nested := by
  obtain ⟨fields, groups, varData, rest, split, isFields, isGroups, isVarData, found⟩ :=
    decomposeAll_flattenAll nested fits
  cases rest with
  | cons => rw [found]; exact .refuse _
  | nil =>
    have size := decomposeAll_size_le found
    rw [found]
    exact ⟨⟨fields, isFields, rfl⟩, ⟨groups, isGroups, rfl⟩, ⟨varData, isVarData, rfl⟩, by omega⟩

theorem encodingAt_answers {tokens : List Token} (filled : tokens ≠ []) (offset limit : Nat) :
    Answers (encodingAt tokens offset limit) fun _ => True := by
  unfold encodingAt
  split
  · exact .ite trivial (.refuse _)
  · exact .refuse _
  · next ended =>
    rw [List.getLast?_eq_none_iff] at ended
    exact absurd ended filled

/-- The tree of a group opens into its dimensions and the trees of its body. -/
theorem groupLayout_answers {tree : Tree} (nested : tree.WellNested)
    (opens : tree.first.signal = .beginGroup) {index : Nat}
    (fits : index + tree.flatten.length < wordBound) (after : List Token) :
    Answers (groupLayout index tree.first (flattenAll tree.children) (tree.flatten.tail ++ after))
      fun layout => Nested layout.body := by
  obtain ⟨closing, closes, tokens, _⟩ := nested.flatten_of_opens (by rw [opens]; rfl)
  have inside := nested.children
  rw [tokens, List.tail_cons, List.append_assoc]
  rw [tokens, List.length_cons, List.length_append, List.length_singleton] at fits
  cases children : tree.children with
  | nil =>
    -- The group is empty, so its closing token stands where the dimensions should.
    rw [opens] at closes
    cases closing with | mk signal =>
    cases closes
    exact .refuse _
  | cons dimensions members =>
    rw [children] at inside fits
    obtain ⟨first, later⟩ := List.forall_mem_cons.mp inside
    rw [Tree.flattenAll_cons, List.length_append] at fits
    rw [Tree.flattenAll_cons, Tree.flatten_eq_cons, List.cons_append, List.cons_append, groupLayout]
    by_cases composite : dimensions.first.signal = .beginComposite
    · have begins : dimensions.first.signal.isBegin = true := by rw [composite]; rfl
      have size := first.length_flatten_of_opens begins
      rw [if_neg (not_not_intro composite), List.append_assoc,
        closedSpan_flatten first begins (by omega), Outcome.ok_bind]
      dsimp only
      rw [← List.cons_append, ← Tree.flatten_eq_cons, ← size, List.drop_left]
      refine .ite (.refuse _) ?_
      refine (encodingAt_answers (List.cons_ne_nil _ _) _ _).bind fun _ _ => ?_
      refine (encodingAt_answers (List.cons_ne_nil _ _) _ _).bind fun _ _ => ?_
      exact (decomposeAll_answers later (by omega)).bind fun _ found => found
    · rw [if_pos composite]
      exact .refuse _

/-- Every group of a run opens into a body that is nested itself. -/
theorem splitGroups_answers {trees : List Tree} (forest : IsForest .beginGroup trees) {index : Nat}
    (fits : index + (flattenAll trees).length < wordBound) :
    Answers (splitGroups index (flattenAll trees)) fun layouts =>
      ∀ layout ∈ layouts, Nested layout.body :=
  scans_splitGroups.answers rfl
    (fun _ nested opens _ after small => groupLayout_answers nested opens small after) forest fits

theorem splitVarData_answers {trees : List Tree} (forest : IsForest .beginVarData trees)
    {index : Nat} (fits : index + (flattenAll trees).length < wordBound) :
    Answers (splitVarData index (flattenAll trees)) fun _ => True := by
  have each (index : Nat) (token : Token) (inner rest : List Token) :
      Answers (varDataLayout index token inner rest) fun _ => True := by
    refine (encodingAt_answers (List.cons_ne_nil _ _) _ _).bind fun _ _ => ?_
    exact (encodingAt_answers (List.cons_ne_nil _ _) _ _).bind fun _ _ => trivial
  exact (scans_splitVarData.answers rfl (fun _ _ _ _ _ _ => each _ _ _ _) forest fits).mono
    fun _ _ => trivial

/-! ### Verification -/

theorem requireUnsigned_answers (token : Token) :
    Answers (Schema.requireUnsigned token) fun _ => True := by
  have typed : Answers token.primitive fun _ => True := .ofOption _ fun _ _ => trivial
  exact typed.bind fun _ _ => .ite (.refuse _) trivial

theorem groups_answers {body : Body} (nested : Nested body) :
    Answers (groups body) fun sized => ∀ item ∈ sized, Nested item.val.body := by
  obtain ⟨trees, forest, run⟩ := nested.groups
  have size : body.groups.length ≤ body.size := by rw [Body.size]; omega
  have small := nested.small
  have split : Answers (splitGroups 0 (flattenAll trees)) _ :=
    splitGroups_answers forest (by rw [run]; omega)
  rw [run] at split
  refine .of_ne_fault (fun faulted => ?_) fun sized found item member => ?_
  · cases found : splitGroups 0 body.groups with
    | ok layouts =>
      obtain ⟨sized, done, _⟩ := exists_groups_of_splitGroups found
      rw [faulted] at done
      cases done
    | error halt =>
      rw [groups_of_splitGroups_error found] at faulted
      cases faulted
      exact split.ne_fault found
  · rw [splitGroups_of_groups found] at split
    exact split item.val (List.mem_map_of_mem member)

/-- The test of a body goes down its groups, and stops at none with a fault. -/
theorem verifyBody_answers {body : Body} (nested : Nested body) :
    Answers (Schema.verifyBody body) fun _ => True := by
  induction size : body.size using Nat.strongRecOn generalizing body with
  | ind total ih =>
  obtain ⟨fields, isFields, fieldsRun⟩ := nested.fields
  obtain ⟨varData, isVarData, varDataRun⟩ := nested.varData
  have small := nested.small
  have sizes : body.fields.length ≤ body.size ∧ body.varData.length ≤ body.size := by
    rw [Body.size]
    omega
  rw [Schema.verifyBody, ← fieldsRun, splitFields_flattenAll isFields (by rw [fieldsRun]; omega),
    Outcome.ok_bind, ← varDataRun]
  refine (Answers.forM fun layout _ => ?_).bind fun _ _ => ?_
  · exact .ite (.refuse _) trivial
  refine (groups_answers nested).bind fun sized inside => ?_
  refine (Answers.forM fun item member => ?_).bind fun _ _ => ?_
  · refine (requireUnsigned_answers _).bind fun _ _ => ?_
    refine (requireUnsigned_answers _).bind fun _ _ => ?_
    exact ih _ (by rw [← size]; exact item.property) (inside item member) rfl
  · refine (splitVarData_answers isVarData (by rw [varDataRun]; omega)).bind fun _ _ => ?_
    exact .forM fun _ _ => requireUnsigned_answers _

/-- The body of a well-nested message is that of the trees inside. -/
theorem decomposeMessage_flatten {tree : Tree} (nested : tree.WellNested)
    (opens : tree.first.signal = .beginMessage) :
    decomposeMessage tree.flatten = decomposeAll (flattenAll tree.children) := by
  obtain ⟨closing, _, tokens, _⟩ := nested.flatten_of_opens (by rw [opens]; rfl)
  rw [decomposeMessage, tokens, messageBody, if_pos ⟨opens, by simp⟩, List.dropLast_concat,
    Outcome.ok_bind]

/-- The body of a well-nested message is refused, or nested itself. -/
theorem decomposeMessage_answers {tree : Tree} (nested : tree.WellNested)
    (opens : tree.first.signal = .beginMessage) :
    Answers (decomposeMessage tree.flatten) Nested := by
  have size := nested.length_flatten_of_opens (by rw [opens]; rfl)
  have fits := nested.length_flatten_lt
  rw [decomposeMessage_flatten nested opens]
  exact decomposeAll_answers nested.children (by omega)

end Layout

end Sbe
