import Mathlib.Order.Bounds.Defs
import Sbe.Proofs.Generation
import Sbe.Proofs.NestedLayout
import Sbe.Token.Build

/-!
**Counts agree with brackets and with trees.**

An opening token counts the tokens of its element, and later passes over an accepted stream trust
the counts: one jumps from an opening token to the end of its element, another cuts a composite into
its members. Nothing in them looks at what stands in between. The opening and closing tokens of the
stream are brackets, and these decide where an element ends without any count.

* `Tree.WellNested.balance_take_pos`: the brackets of an element are in balance at its end and not
  before;
* `Tree.WellNested.startsElement`: every opening token of a stream starts an element, at any depth;
* `findEnd_isLeast`: the jump ends where the brackets are first in balance;
* `members_are_children`: the members of a composite are the elements inside it.
-/

namespace Sbe

namespace Signal

theorem isEnd_of_closing? {opening closing : Signal} (closes : opening.closing? = some closing) :
    closing.isEnd = true := by
  cases opening <;> cases closes <;> rfl

/-- What closes an element opens none. -/
theorem not_isBegin_of_isEnd {signal : Signal} (ends : signal.isEnd = true) :
    signal.isBegin = false := by
  cases signal <;> first | rfl | cases ends

end Signal

namespace Span

/-! ### Brackets -/

/-- The number of opening tokens of a list less the number of its closing tokens. -/
def balance (tokens : List Token) : Int :=
  (tokens.countP fun token => token.signal.isBegin : Int) -
    tokens.countP fun token => token.signal.isEnd

@[simp] theorem balance_nil : balance [] = 0 := rfl

theorem balance_append (first second : List Token) :
    balance (first ++ second) = balance first + balance second := by
  simp only [balance, List.countP_append]
  omega

theorem balance_cons (token : Token) (rest : List Token) :
    balance (token :: rest) = balance [token] + balance rest :=
  balance_append [token] rest

theorem balance_opening {opening : Token} {closing : Signal}
    (closes : opening.signal.closing? = some closing) : balance [opening] = 1 := by
  simp [balance, Signal.isBegin_of_closing? closes, Signal.not_isEnd_of_closing? closes]

theorem balance_closing {closing : Token} (ends : closing.signal.isEnd = true) :
    balance [closing] = -1 := by
  simp [balance, ends, Signal.not_isBegin_of_isEnd ends]

namespace Tree

theorem balance_flattenAll {trees : List Tree} (each : ∀ tree ∈ trees, balance tree.flatten = 0) :
    balance (flattenAll trees) = 0 := by
  induction trees with
  | nil => rw [flattenAll, balance_nil]
  | cons tree rest ih =>
    obtain ⟨first, later⟩ := List.forall_mem_cons.mp each
    rw [flattenAll_cons, balance_append, first, ih later, Int.zero_add]

/-- Brackets that are never closed too early in any tree are not in the trees one after another. -/
theorem balance_take_flattenAll {trees : List Tree}
    (each : ∀ tree ∈ trees, ∀ count, 0 ≤ balance (tree.flatten.take count)) (count : Nat) :
    0 ≤ balance ((flattenAll trees).take count) := by
  induction trees generalizing count with
  | nil =>
    refine Int.le_of_eq ?_
    rw [flattenAll, List.take_nil, balance_nil]
  | cons tree rest ih =>
    obtain ⟨first, later⟩ := List.forall_mem_cons.mp each
    rw [flattenAll_cons, List.take_append, balance_append]
    exact Int.add_nonneg (first count) (ih later _)

/-- As many elements are closed in a tree as are opened. -/
theorem WellNested.balance_flatten {tree : Tree} (nested : tree.WellNested) :
    balance tree.flatten = 0 := by
  induction nested with
  | leaf opens closes => simp [flatten, balance, opens, closes]
  | node closes _ _ _ ih =>
    rw [flatten_node, balance_cons, balance_append, balance_opening closes, balance_flattenAll ih,
      balance_closing (Signal.isEnd_of_closing? closes)]
    rfl

/-- The elements that are opened in a tree are all closed at its end and not before. -/
theorem WellNested.balance_take_pos {tree : Tree} (nested : tree.WellNested) {count : Nat}
    (begun : 0 < count) (short : count < tree.flatten.length) :
    0 < balance (tree.flatten.take count) := by
  induction nested generalizing count with
  | leaf => exact absurd short (Nat.not_lt_of_le begun)
  | @node opening closing children closes _ _ inside ih =>
    -- The opening token is closed by the last one only, and each child is in balance before the
    -- next begins.
    have each : ∀ child ∈ children, ∀ count, 0 ≤ balance (child.flatten.take count) := by
      intro child member count
      rcases count.eq_zero_or_pos with rfl | started
      · exact Int.le_refl 0
      · by_cases within : count < child.flatten.length
        · exact Int.le_of_lt (ih child member started within)
        · refine Int.le_of_eq ?_
          rw [List.take_of_length_le (Nat.le_of_not_lt within),
            (inside child member).balance_flatten]
    have enough := balance_take_flattenAll each (count - 1)
    rw [length_flatten_node] at short
    rw [flatten_node, List.take_cons begun, balance_cons, balance_opening closes,
      List.take_append_of_le_length (by omega)]
    omega

end Tree

/-! ### The element at an index -/

/-- An element stands at an index of a stream and starts with a token. -/
def StartsElement (tokens : List Token) (index : Nat) (token : Token) : Prop :=
  ∃ (element : Tree) (after : List Token), element.WellNested ∧ element.first = token ∧
    tokens.drop index = element.flatten ++ after

namespace StartsElement

variable {tokens : List Token} {index : Nat} {token : Token}

theorem append_right (starts : StartsElement tokens index token) (inside : index < tokens.length)
    (others : List Token) : StartsElement (tokens ++ others) index token := by
  obtain ⟨element, after, nested, first, stream⟩ := starts
  refine ⟨element, after ++ others, nested, first, ?_⟩
  rw [List.drop_append_of_le_length (Nat.le_of_lt inside), stream, List.append_assoc]

theorem append_left (starts : StartsElement tokens index token) (others : List Token) :
    StartsElement (others ++ tokens) (others.length + index) token := by
  obtain ⟨element, after, nested, first, stream⟩ := starts
  refine ⟨element, after, nested, first, ?_⟩
  rw [← stream, ← List.drop_drop, List.drop_left]

end StartsElement

namespace Tree

/-- In trees whose opening tokens all start an element, so do those of the trees one after
another. -/
theorem startsElement_flattenAll {trees : List Tree} {token : Token}
    (each : ∀ tree ∈ trees, ∀ index, tree.flatten[index]? = some token →
      StartsElement tree.flatten index token) {index : Nat}
    (stands : (flattenAll trees)[index]? = some token) :
    StartsElement (flattenAll trees) index token := by
  induction trees generalizing index with
  | nil =>
    rw [flattenAll] at stands
    cases stands
  | cons tree rest ih =>
    obtain ⟨first, later⟩ := List.forall_mem_cons.mp each
    rw [flattenAll_cons] at stands ⊢
    by_cases inside : index < tree.flatten.length
    · rw [List.getElem?_append_left inside] at stands
      exact (first index stands).append_right inside _
    · have behind := Nat.le_of_not_lt inside
      rw [List.getElem?_append_right behind] at stands
      have starts := (ih later stands).append_left tree.flatten
      rwa [Nat.add_sub_cancel' behind] at starts

/-- Every opening token of a stream starts an element, at any depth. -/
theorem WellNested.startsElement {tree : Tree} (nested : tree.WellNested) {index : Nat}
    {token : Token} (stands : tree.flatten[index]? = some token)
    (opens : token.signal.isBegin = true) : StartsElement tree.flatten index token := by
  induction nested generalizing index with
  | @leaf single shut closes =>
    have same : single = token := by
      cases index with
      | zero => exact Option.some.inj stands
      | succ index => cases stands
    rw [same, opens] at shut
    cases shut
  | @node opening closing children closes named counted inside ih =>
    cases index with
    | zero =>
      rw [flatten_node] at stands
      exact ⟨_, [], .node closes named counted inside, Option.some.inj stands,
        (List.append_nil _).symm⟩
    | succ index =>
      rw [flatten_node, List.getElem?_cons_succ] at stands
      have within : index < (flattenAll children).length := by
        by_contra behind
        rw [List.getElem?_append_right (Nat.le_of_not_lt behind)] at stands
        have last := List.mem_singleton.mp (List.mem_of_getElem? stands)
        rw [last, Signal.not_isBegin_of_isEnd (Signal.isEnd_of_closing? closes)] at opens
        cases opens
      rw [List.getElem?_append_left within] at stands
      have starts :=
        startsElement_flattenAll (fun child member _ found => ih child member found) stands
      have shifted := (starts.append_right within [closing]).append_left [opening]
      rwa [List.length_singleton, Nat.add_comm, List.singleton_append, ← flatten_node] at shifted

end Tree

end Span

/-! ### The end of an element -/

namespace Layout

open Sbe.Span (Tree balance StartsElement)
open Sbe.Span.Tree (flattenAll)

/-- The indices above an index at which, counted from that index on, as many elements are closed as
opened. -/
def balancedEnds (tokens : List Token) (index : Nat) : Set Nat :=
  {stop | index < stop ∧ stop < tokens.length ∧ balance (tokens.extract index (stop + 1)) = 0}

section Element

variable {tokens after : List Token} {index : Nat} {element : Tree} (nested : element.WellNested)
  (opens : element.first.signal.isBegin = true)
  (stream : tokens.drop index = element.flatten ++ after)
include nested opens stream

/-- The jump from an opening token ends in the last token of its element. -/
theorem findEnd_element (fits : index + element.flatten.length < wordBound) :
    findEnd tokens index = .ok (index + element.flatten.length - 1) := by
  have size := nested.length_flatten_of_opens opens
  rw [Tree.flatten_eq_cons, List.cons_append] at stream
  rw [findEnd, stream]
  dsimp only
  rw [closedSpan_flatten nested opens fits, Outcome.ok_bind, size]
  rfl

/-- The last token of an element is the first at which the brackets are in balance. -/
theorem isLeast_balancedEnds :
    IsLeast (balancedEnds tokens index) (index + element.flatten.length - 1) := by
  have size := nested.length_flatten_of_opens opens
  have total := congrArg List.length stream
  rw [List.length_drop, List.length_append] at total
  constructor
  · refine ⟨by omega, by omega, ?_⟩
    rw [List.extract_eq_take_drop, stream,
      show index + element.flatten.length - 1 + 1 - index = element.flatten.length by omega,
      List.take_left, nested.balance_flatten]
  · rintro stop ⟨above, _, balanced⟩
    by_contra early
    have short : stop + 1 - index < element.flatten.length := by omega
    have more := nested.balance_take_pos (show 0 < stop + 1 - index by omega) short
    rw [List.extract_eq_take_drop, stream,
      List.take_append_of_le_length (Nat.le_of_lt short)] at balanced
    omega

end Element

/-- **Skipping by counts is bracket matching.** In a stream that passes the span test, the jump from
any opening token succeeds, and ends at the least index above it at which as many elements are
closed as opened from that token on. -/
theorem findEnd_isLeast {list : TokenList} {tokens found : List Token}
    (passed : Span.check list tokens = .ok found) {index : Nat} {token : Token}
    (stands : tokens[index]? = some token) (opens : token.signal.isBegin = true) :
    ∃ last, findEnd tokens index = .ok last ∧ IsLeast (balancedEnds tokens index) last := by
  obtain ⟨tree, nested, rfl, _⟩ := Span.wellNested_of_check passed
  obtain ⟨element, after, inside, rfl, stream⟩ := nested.startsElement stands opens
  have fits : index + element.flatten.length < wordBound := by
    have small := nested.length_flatten_lt
    have start := (List.getElem?_eq_some_iff.mp stands).1
    have total := congrArg List.length stream
    rw [List.length_drop, List.length_append] at total
    omega
  exact ⟨_, findEnd_element inside opens stream fits, isLeast_balancedEnds inside opens stream⟩

end Layout

/-- A composite of a value, an enum and a composite with a set in it. -/
def gearbox : List Token :=
  Build.composite "Gearbox" 0 4
    [[Build.value "ratio" 0 (.of .uint16)],
      Build.enumeration "Drive" 2 (.of .uint8) [("front", .uint 1), ("rear", .uint 2)],
      Build.composite "Clutch" 3 1 [Build.bitSet "Plates" 3 (.of .uint8) [("dry", 0)]]]

theorem gearbox_accepted : ∃ found, Span.check .type gearbox = .ok found := by
  have passed : (Span.check .type gearbox).toOption.isSome = true := by decide +kernel
  obtain ⟨found, held⟩ := Option.isSome_iff_exists.mp passed
  exact ⟨found, Outcome.eq_ok_of_mem_toOption held⟩

namespace Layout

/-- The inner composite ends where its own brackets are in balance, past the end of the set in
it. -/
theorem gearbox_findEnd_isLeast :
    (∃ found, Span.check .type gearbox = .ok found) ∧
    (∃ token, gearbox[6]? = some token ∧ token.signal.isBegin = true) ∧
    findEnd gearbox 6 = .ok 10 ∧ IsLeast (balancedEnds gearbox 6) 10 := by
  obtain ⟨found, passed⟩ := gearbox_accepted
  have stands : ∃ token, gearbox[6]? = some token ∧ token.signal.isBegin = true := ⟨_, rfl, rfl⟩
  have ended : findEnd gearbox 6 = .ok 10 := by decide +kernel
  obtain ⟨token, here, opens⟩ := stands
  obtain ⟨last, reached, least⟩ := findEnd_isLeast passed here opens
  rw [ended] at reached
  cases reached
  exact ⟨⟨found, passed⟩, ⟨token, here, opens⟩, ended, least⟩

end Layout

/-! ### The members of a composite -/

namespace Source

open Sbe.Span (Tree)
open Sbe.Span.Tree (flattenAll)

/-- The tokens of the type of a property. -/
def Property.tokens (property : Property) : List Token := property.first :: property.others

/-- A member that is cut out of a composite is a child of its tree: it has all tokens of the child,
as many as its first token counts, so that it was not cut off at the end of the composite. -/
structure IsMember (property : Property) (child : Tree) : Prop where
  bare : property.field = none
  nested : child.WellNested
  whole : property.tokens = child.flatten
  counted : property.tokens.length =
    if property.first.signal.isBegin then property.first.span else 1

theorem isMember {child : Tree} (nested : child.WellNested) :
    IsMember ⟨none, child.first, child.flatten.tail⟩ child where
  bare := rfl
  nested := nested
  whole := child.flatten_eq_cons.symm
  counted := by
    rw [Property.tokens, ← Tree.flatten_eq_cons]
    cases nested with
    | leaf opens => rw [Tree.first, if_neg (by simp [opens])]; rfl
    | node closes _ counted => rw [Tree.first, if_pos (Signal.isBegin_of_closing? closes), counted]

theorem flatMap_tokens {properties : List Property} {children : List Tree}
    (members : List.Forall₂ IsMember properties children) :
    properties.flatMap Property.tokens = flattenAll children := by
  induction members with
  | nil => rw [List.flatMap_nil, flattenAll]
  | cons member _ ih => rw [List.flatMap_cons, Tree.flattenAll_cons, member.whole, ih]

/-- **The members of a composite are its children.** A stream that passes the span test and starts
with a composite is cut into members that are the children of its tree one by one. Nothing is left
over between the first token and the last, and no count reaches past the end. -/
theorem members_are_children {list : TokenList} {opening : Token} {rest found : List Token}
    (passed : Span.check list (opening :: rest) = .ok found)
    (composite : opening.signal = .beginComposite) :
    ∃ (root : Tree) (properties : List Property) (closing : Token),
      root.WellNested ∧ root.flatten = opening :: rest ∧
      members 0 (inner (opening :: rest)) = .ok properties ∧
      List.Forall₂ IsMember properties root.children ∧
      rest = properties.flatMap Property.tokens ++ [closing] := by
  obtain ⟨root, nested, stream, _⟩ := Span.wellNested_of_check passed
  have first : root.first = opening := by
    rw [Tree.flatten_eq_cons] at stream
    exact (List.cons.inj stream).1
  obtain ⟨closing, _, shape, _⟩ := nested.flatten_of_opens (by rw [first, composite]; rfl)
  have small : 0 + (flattenAll root.children).length < wordBound := by
    have whole := nested.length_flatten_lt
    rw [shape, List.length_cons, List.length_append] at whole
    omega
  have each : List.Forall₂ IsMember
      (root.children.map fun child => ⟨none, child.first, child.flatten.tail⟩) root.children := by
    rw [List.forall₂_map_left_iff, List.forall₂_same]
    exact fun child member => isMember (nested.children child member)
  refine ⟨root, _, closing, nested, stream, ?_, each, ?_⟩
  · rw [← stream, inner_flatten, members_flattenAll nested.children small]
  · rw [shape] at stream
    rw [flatMap_tokens each]
    exact (List.cons.inj stream).2.symm

/-- The composite has three members, with the tokens of the enum and of the inner composite all in
theirs. -/
theorem gearbox_members_are_children :
    (∃ found, Span.check .type gearbox = .ok found) ∧
    ∃ (root : Tree) (properties : List Property), root.flatten = gearbox ∧
      members 0 (inner gearbox) = .ok properties ∧ List.Forall₂ IsMember properties root.children ∧
      properties.map (fun property => property.tokens.length) = [1, 4, 5] := by
  obtain ⟨found, passed⟩ := gearbox_accepted
  obtain ⟨root, properties, _, _, stream, cut, each, _⟩ := members_are_children passed rfl
  have sizes : ((members 0 (inner gearbox)).toOption.map fun properties =>
      properties.map fun property => property.tokens.length) = some [1, 4, 5] := by decide +kernel
  rw [show members 0 (inner gearbox) = .ok properties from cut] at sizes
  exact ⟨⟨found, passed⟩, root, properties, stream, cut, each, Option.some.inj sizes⟩

end Source

end Sbe
