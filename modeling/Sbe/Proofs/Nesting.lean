import Mathlib.Logic.ExistsUnique
import Sbe.Proofs.Outcome
import Sbe.Span

/-!
**Span checking accepts exactly the well-nested streams.**

A tree of tokens is a single token, or an opening token, the trees inside it and the token that
closes it. It is well nested when every opening token is closed by its own kind of token under its
own name, and counts the tokens of its tree.

* `references_flattenAll`: the streams of well-nested trees pass the test, with the references of
  the trees;
* `wellNested_of_references`: a stream that passes is the stream of well-nested trees;
* `WellNested.flatten_append_inj`: the stream of a well-nested tree determines the tree, whatever
  follows it.
-/

namespace Sbe

namespace Signal

theorem isBegin_of_closing? {opening closing : Signal} (closes : opening.closing? = some closing) :
    opening.isBegin = true := by
  rw [isBegin, closes]
  rfl

theorem closing?_of_not_isBegin {signal : Signal} (single : signal.isBegin = false) :
    signal.closing? = none := by
  rw [isBegin, Option.isSome_eq_false_iff] at single
  exact Option.isNone_iff_eq_none.mp single

/-- What opens an element closes none. -/
theorem not_isEnd_of_closing? {opening closing : Signal}
    (closes : opening.closing? = some closing) : opening.isEnd = false := by
  cases opening <;> first | rfl | cases closes

theorem opensType_iff (signal : Signal) :
    signal.opensType = true ↔ signal ∈ [beginComposite, beginEnum, beginSet] := by
  cases signal <;> decide

end Signal

namespace Span

/-! ### Trees -/

/-- A single token, or an opening token, the trees inside it, and the token that closes it. -/
inductive Tree where
  | leaf (token : Token)
  | node (opening : Token) (children : List Tree) (closing : Token)

namespace Tree

/-- The token a tree starts with. -/
def first : Tree → Token
  | leaf token => token
  | node opening _ _ => opening

/-- The trees inside a tree. -/
def children : Tree → List Tree
  | leaf _ => []
  | node _ children _ => children

mutual

/-- The tokens of a tree in pre-order. -/
def flatten : Tree → List Token
  | leaf token => [token]
  | node opening children closing => opening :: flattenAll children ++ [closing]

/-- The tokens of trees, one tree after another. -/
def flattenAll : List Tree → List Token
  | [] => []
  | tree :: rest => tree.flatten ++ flattenAll rest

end

mutual

/-- The tokens that start a tree in it, each with the signal of the tree right around its own, in
pre-order. -/
def starts (parent : Option Signal) : Tree → List (Option Signal × Token)
  | leaf token => [(parent, token)]
  | node opening children _ => (parent, opening) :: startsAll (some opening.signal) children

/-- The tokens that start a tree in any of several trees, which stand in the same parent. -/
def startsAll (parent : Option Signal) : List Tree → List (Option Signal × Token)
  | [] => []
  | tree :: rest => tree.starts parent ++ startsAll parent rest

end

/-- Every opening token is closed by its kind of token under its name, and counts the tokens of its
tree; all other tokens neither open nor close anything. -/
inductive WellNested : Tree → Prop where
  | leaf {token : Token} (opens : token.signal.isBegin = false)
    (closes : token.signal.isEnd = false) : WellNested (.leaf token)
  | node {opening closing : Token} {children : List Tree}
      (closes : opening.signal.closing? = some closing.signal) (named : closing.name = opening.name)
      (counted : opening.span = (Tree.node opening children closing).flatten.length)
      (inside : ∀ child ∈ children, WellNested child) : WellNested (.node opening children closing)

end Tree

/-- Whether a token names a type: it opens a composite, an enum or a set right inside a field or a
composite. -/
def NamesType (start : Option Signal × Token) : Prop :=
  start.2.signal ∈ [Signal.beginComposite, .beginEnum, .beginSet] ∧
    start.1 ∈ [some Signal.beginField, some .beginComposite]

instance : DecidablePred NamesType := fun _ => inferInstanceAs (Decidable (_ ∧ _))

/-- The tokens among the starts of trees that name a type. -/
def typeNames (starts : List (Option Signal × Token)) : List Token :=
  (starts.filter fun start => decide (NamesType start)).map Prod.snd

/-- The tokens of a tree that name a type, in pre-order. -/
def Tree.typeNames (tree : Tree) : List Token := Span.typeNames (tree.starts none)

theorem isReference_eq (parent : Option Signal) (token : Token) :
    isReference parent token = decide (NamesType (parent, token)) := by
  rw [Bool.eq_iff_iff, decide_eq_true_iff, isReference, NamesType, Bool.and_eq_true,
    Signal.opensType_iff]
  simp

theorem typeNames_cons (parent : Option Signal) (token : Token)
    (starts : List (Option Signal × Token)) :
    typeNames ((parent, token) :: starts) =
      (if isReference parent token then [token] else []) ++ typeNames starts := by
  unfold typeNames
  rw [isReference_eq, List.filter_cons]
  by_cases names : NamesType (parent, token)
  · simp [names]
  · simp [names]

theorem typeNames_append (first second : List (Option Signal × Token)) :
    typeNames (first ++ second) = typeNames first ++ typeNames second := by
  simp [typeNames]

namespace Tree

theorem flatten_node (opening closing : Token) (children : List Tree) :
    (node opening children closing).flatten = opening :: (flattenAll children ++ [closing]) := by
  rw [flatten, List.cons_append]

theorem length_flatten_node (opening closing : Token) (children : List Tree) :
    (node opening children closing).flatten.length = (flattenAll children).length + 2 := by
  rw [flatten_node, List.length_cons, List.length_append, List.length_singleton]

theorem flatten_eq_cons (tree : Tree) : tree.flatten = tree.first :: tree.flatten.tail := by
  cases tree with
  | leaf token => rfl
  | node opening children closing => rw [flatten_node]; rfl

theorem flattenAll_cons (tree : Tree) (rest : List Tree) :
    flattenAll (tree :: rest) = tree.flatten ++ flattenAll rest := by
  rw [flattenAll]

theorem flattenAll_map {α : Type} (tree : α → Tree) (items : List α) :
    flattenAll (items.map tree) = items.flatMap fun item => (tree item).flatten := by
  induction items with
  | nil => rw [List.map_nil, flattenAll, List.flatMap_nil]
  | cons item rest ih => rw [List.map_cons, flattenAll_cons, ih, List.flatMap_cons]

theorem flattenAll_map_leaf {α : Type} (token : α → Token) (items : List α) :
    flattenAll (items.map fun item => leaf (token item)) = items.map token := by
  rw [flattenAll_map, List.map_eq_flatMap]
  rfl

theorem length_flatten_le_of_mem {tree : Tree} {trees : List Tree} (member : tree ∈ trees) :
    tree.flatten.length ≤ (flattenAll trees).length := by
  induction trees with
  | nil => cases member
  | cons first rest ih =>
    rw [flattenAll_cons, List.length_append]
    rcases List.mem_cons.mp member with rfl | later
    · exact Nat.le_add_right _ _
    · exact Nat.le_add_left_of_le (ih later)

/-- The tokens that name a type in a tree: its own, if its start is one, and those of its
children. -/
theorem typeNames_starts (parent : Option Signal) (tree : Tree) :
    Span.typeNames (tree.starts parent) =
      (if isReference parent tree.first then [tree.first] else []) ++
        Span.typeNames (startsAll (some tree.first.signal) tree.children) := by
  cases tree with
  | leaf token =>
    rw [starts, typeNames_cons]
    rfl
  | node opening children closing =>
    rw [starts, typeNames_cons]
    rfl

/-- The start of a whole stream stands in no parent, so it names no type. -/
theorem typeNames_eq (tree : Tree) :
    tree.typeNames = Span.typeNames (startsAll (some tree.first.signal) tree.children) := by
  have root : isReference none tree.first = false := by simp [isReference]
  rw [typeNames, typeNames_starts, root]
  rfl

end Tree

/-! ### One element -/

theorem element_leaf {index : Nat} {token : Token} {rest : List Token}
    (opens : token.signal.isBegin = false) (closes : token.signal.isEnd = false) :
    element index token rest = .ok ([], rest) := by
  rw [element, closes, Signal.closing?_of_not_isBegin opens]
  rfl

theorem element_node {index : Nat} {opening closing : Token} {inner after : List Token}
    (closes : opening.signal.closing? = some closing.signal) (named : closing.name = opening.name)
    (counted : opening.span = inner.length + 2) (fits : index + opening.span < wordBound) :
    element index opening (inner ++ closing :: after) = .ok (inner, after) := by
  have enough : ¬ opening.span < 2 := by omega
  have small : ¬ wordBound ≤ index + opening.span := by omega
  have length : opening.span - 2 = inner.length := by omega
  rw [element, Signal.not_isEnd_of_closing? closes, closes]
  simp only [Bool.false_eq_true, if_false, if_neg enough, if_neg small]
  rw [length, List.drop_left]
  dsimp only
  rw [if_pos ⟨rfl, named⟩, List.take_left]

/-- An element is a single token, or stands between a token that opens and counts it and the token
that closes it. -/
theorem element_cases {index : Nat} {token : Token} {rest inner after : List Token}
    (split : element index token rest = .ok (inner, after)) :
    (token.signal.isBegin = false ∧ token.signal.isEnd = false ∧ inner = [] ∧ after = rest) ∨
      ∃ closing : Token, token.signal.closing? = some closing.signal ∧ closing.name = token.name ∧
        token.span = inner.length + 2 ∧ rest = inner ++ closing :: after := by
  unfold element at split
  split at split
  · cases split
  · next open_ =>
    split at split
    · next single =>
      cases split
      refine .inl ⟨?_, Bool.eq_false_iff.mpr open_, rfl, rfl⟩
      rw [Signal.isBegin, single]
      rfl
    · next closing closes =>
      dsimp only at split
      split at split
      · cases split
      · next enough =>
        split at split
        · cases split
        · split at split
          · cases split
          · next last after' dropped =>
            split at split
            · next closed =>
              cases split
              have sizes := congrArg List.length dropped
              simp only [List.length_drop, List.length_cons] at sizes
              refine .inr ⟨last, ?_, closed.2, ?_, ?_⟩
              · rw [closes, closed.1]
              · rw [List.length_take]
                omega
              · rw [← dropped, List.take_append_drop]
            · cases split

/-- An element whose inside is the stream of well-nested trees is a well-nested tree itself. -/
theorem wellNested_of_element {index : Nat} {token : Token} {rest inner after : List Token}
    (split : element index token rest = .ok (inner, after)) {children : List Tree}
    (nested : ∀ child ∈ children, child.WellNested) (tokens : Tree.flattenAll children = inner) :
    ∃ tree : Tree, tree.WellNested ∧ tree.first = token ∧ tree.children = children ∧
      tree.flatten ++ after = token :: rest := by
  obtain ⟨opens, closes, rfl, rfl⟩ | ⟨closing, closes, named, counted, rfl⟩ := element_cases split
  · cases children with
    | nil => exact ⟨.leaf token, .leaf opens closes, rfl, rfl, rfl⟩
    | cons child _ =>
      rw [Tree.flattenAll_cons, Tree.flatten_eq_cons] at tokens
      cases tokens
  · have size : token.span = (Tree.node token children closing).flatten.length := by
      rw [Tree.length_flatten_node, tokens, counted]
    refine ⟨.node token children closing, .node closes named size nested, rfl, rfl, ?_⟩
    rw [Tree.flatten_node, tokens, List.cons_append, List.append_assoc]
    rfl

theorem Tree.WellNested.element_eq {tree : Tree} (nested : tree.WellNested) {index : Nat}
    (fits : index + tree.flatten.length < wordBound) (after : List Token) :
    element index tree.first (tree.flatten.tail ++ after) =
      .ok (flattenAll tree.children, after) := by
  cases nested with
  | leaf opens closes => exact element_leaf opens closes
  | node closes named counted inside =>
    rw [← counted] at fits
    rw [length_flatten_node] at counted
    rw [flatten_node, List.tail_cons, List.append_assoc]
    exact element_node closes named counted fits

/-! ### Sequences of elements -/

theorem references_cons {parent : Option Signal} {index : Nat} {token : Token}
    {rest inner after : List Token} (split : element index token rest = .ok (inner, after)) :
    references parent index (token :: rest) = (do
      let inside ← references (some token.signal) (index + 1) inner
      let others ← references parent (index + 1 + (rest.length - after.length)) after
      pure ((if isReference parent token then [token] else []) ++ inside ++ others)) := by
  rw [references]
  split
  · next failed =>
    rw [split] at failed
    cases failed
  · next found =>
    rw [split] at found
    cases found
    rfl

/-- A stream of well-nested trees passes the test, with the names of types in the trees. -/
theorem references_flattenAll {trees : List Tree} (nested : ∀ tree ∈ trees, tree.WellNested)
    {parent : Option Signal} {index : Nat}
    (fits : index + (Tree.flattenAll trees).length < wordBound) :
    references parent index (Tree.flattenAll trees) =
      .ok (typeNames (Tree.startsAll parent trees)) := by
  -- The trees of a list are well nested only through the trees inside them, so the induction is on
  -- the number of tokens and not on the list.
  induction counted : (Tree.flattenAll trees).length using Nat.strongRecOn
    generalizing trees parent index with
  | ind size ih =>
  cases trees with
  | nil => rw [Tree.flattenAll, references]; rfl
  | cons tree rest =>
    have first := nested tree List.mem_cons_self
    have lengths : tree.flatten.length + (Tree.flattenAll rest).length = size := by
      rw [← counted, Tree.flattenAll_cons, List.length_append]
    rw [counted] at fits
    have inner : (Tree.flattenAll tree.children).length < tree.flatten.length := by
      cases tree with
      | leaf token => exact Nat.one_pos
      | node opening children closing =>
        rw [Tree.length_flatten_node]
        exact Nat.lt_add_of_pos_right Nat.two_pos
    have inside : ∀ child ∈ tree.children, child.WellNested := by
      cases first with
      | leaf => intro child member; cases member
      | node _ _ _ inside => exact inside
    have whole : (tree.flatten.tail ++ Tree.flattenAll rest).length + 1 = size := by
      rw [List.length_append, List.length_tail]
      omega
    rw [Tree.flattenAll_cons, Tree.flatten_eq_cons, List.cons_append,
      references_cons (first.element_eq (by omega) _),
      ih _ (by omega) inside (by omega) rfl,
      ih _ (by omega) (fun other member => nested other (List.mem_cons_of_mem tree member))
        (by omega) rfl,
      Tree.startsAll, typeNames_append, Tree.typeNames_starts]
    rfl

/-- A stream that passes the test is a stream of well-nested trees. -/
theorem wellNested_of_references {parent : Option Signal} {index : Nat} {tokens found : List Token}
    (passed : references parent index tokens = .ok found) :
    ∃ trees : List Tree, (∀ tree ∈ trees, tree.WellNested) ∧ Tree.flattenAll trees = tokens ∧
      typeNames (Tree.startsAll parent trees) = found := by
  fun_induction references parent index tokens generalizing found with
  | case1 =>
    cases passed
    exact ⟨[], by simp, by rw [Tree.flattenAll], by rw [Tree.startsAll]; rfl⟩
  | case2 => cases passed
  | case3 parent index token rest inner after split bounds ihInside ihOthers =>
    obtain ⟨inside, insidePassed, passed⟩ := Outcome.bind_eq_ok_iff.mp passed
    obtain ⟨others, othersPassed, passed⟩ := Outcome.bind_eq_ok_iff.mp passed
    cases passed
    obtain ⟨children, childrenNested, childrenTokens, childrenNames⟩ := ihInside insidePassed
    obtain ⟨later, laterNested, laterTokens, laterNames⟩ := ihOthers othersPassed
    obtain ⟨tree, treeNested, rfl, rfl, tokens⟩ :=
      wellNested_of_element split childrenNested childrenTokens
    refine ⟨tree :: later, ?_, ?_, ?_⟩
    · rw [List.forall_mem_cons]
      exact ⟨treeNested, laterNested⟩
    · rw [Tree.flattenAll_cons, laterTokens, tokens]
    · rw [Tree.startsAll, typeNames_append, Tree.typeNames_starts, laterNames, childrenNames]

/-! ### The tree of a stream -/

namespace Tree

/-- Trees that can be told apart from their streams one by one can be told apart together. -/
theorem flattenAll_inj {trees others : List Tree}
    (each : ∀ tree ∈ trees, ∀ other ∈ others, ∀ after later,
      tree.flatten ++ after = other.flatten ++ later → tree = other ∧ after = later)
    (same : flattenAll trees = flattenAll others) : trees = others := by
  induction trees generalizing others with
  | nil =>
    cases others with
    | nil => rfl
    | cons other rest =>
      rw [flattenAll_cons, flatten_eq_cons] at same
      cases same
  | cons tree trees ih =>
    cases others with
    | nil =>
      rw [flattenAll_cons, flatten_eq_cons] at same
      cases same
    | cons other rest =>
      rw [flattenAll_cons, flattenAll_cons] at same
      obtain ⟨rfl, later⟩ :=
        each tree List.mem_cons_self other List.mem_cons_self _ _ same
      rw [ih (fun tree member other inside =>
        each tree (List.mem_cons_of_mem _ member) other (List.mem_cons_of_mem _ inside)) later]

/-- A well-nested tree is the only one whose stream a list starts with. -/
theorem WellNested.flatten_append_inj {tree : Tree} (nested : tree.WellNested) :
    ∀ {other : Tree}, other.WellNested → ∀ {after later : List Token},
      tree.flatten ++ after = other.flatten ++ later → tree = other ∧ after = later := by
  induction nested with
  | @leaf token opens _ =>
    intro other otherNested after later same
    cases otherNested with
    | leaf =>
      cases same
      exact ⟨rfl, rfl⟩
    | node closes =>
      rw [flatten_node] at same
      cases same
      rw [Signal.isBegin_of_closing? closes] at opens
      cases opens
  | @node opening closing children closes _ counted _ ih =>
    intro other otherNested after later same
    cases otherNested with
    | leaf opens =>
      rw [flatten_node] at same
      cases same
      rw [Signal.isBegin_of_closing? closes] at opens
      cases opens
    | @node opening' closing' children' closes' _ counted' inside' =>
      rw [length_flatten_node] at counted counted'
      rw [flatten_node, flatten_node, List.cons_append, List.cons_append, List.cons.injEq,
        List.append_assoc, List.append_assoc] at same
      obtain ⟨rfl, same⟩ := same
      -- Both trees start with the same token, so its count is the size of both.
      obtain ⟨childrenSame, closingSame⟩ := List.append_inj same (by omega)
      cases closingSame
      have trees : children = children' := flattenAll_inj
        (fun child member other inside _ _ => ih child member (inside' other inside)) childrenSame
      rw [trees]
      exact ⟨rfl, rfl⟩

theorem WellNested.flatten_inj {tree other : Tree} (nested : tree.WellNested)
    (otherNested : other.WellNested) (same : tree.flatten = other.flatten) : tree = other := by
  have extended : tree.flatten ++ [] = other.flatten ++ [] := by rw [same]
  exact (nested.flatten_append_inj otherNested extended).1

end Tree

/-! ### The test of a stream -/

/-- The stream of a well-nested tree passes the test. -/
theorem check_flatten (list : TokenList) {tree : Tree} (nested : tree.WellNested) :
    check list tree.flatten = .ok tree.typeNames := by
  have fits : 0 + tree.flatten.length < wordBound := by
    cases nested with
    | leaf => exact of_decide_eq_true rfl
    | @node opening _ _ _ _ counted =>
      rw [← counted, Nat.zero_add]
      exact opening.componentTokenCount.toNat_lt
  have split := nested.element_eq fits []
  rw [List.append_nil] at split
  have inside : references (some tree.first.signal) 1 (Tree.flattenAll tree.children) =
      .ok (typeNames (Tree.startsAll (some tree.first.signal) tree.children)) := by
    cases nested with
    | leaf => exact references_flattenAll (by simp [Tree.children]) (of_decide_eq_true rfl)
    | node _ _ _ inside =>
      refine references_flattenAll inside ?_
      rw [Tree.length_flatten_node] at fits
      omega
  rw [Tree.flatten_eq_cons, check, split, Outcome.ok_bind]
  dsimp only
  rw [inside, Outcome.ok_bind, Tree.typeNames_eq]
  rfl

/-- A stream that passes the test is the stream of a well-nested tree. -/
theorem wellNested_of_check {list : TokenList} {tokens found : List Token}
    (passed : check list tokens = .ok found) : ∃ tree : Tree, tree.WellNested ∧
      tree.flatten = tokens ∧ tree.typeNames = found := by
  cases tokens with
  | nil => cases passed
  | cons token rest =>
    rw [check] at passed
    obtain ⟨⟨inner, after⟩, split, passed⟩ := Outcome.bind_eq_ok_iff.mp passed
    obtain ⟨inside, insidePassed, passed⟩ := Outcome.bind_eq_ok_iff.mp passed
    cases after with
    | cons extra _ => cases passed
    | nil =>
      cases passed
      obtain ⟨children, childrenNested, childrenTokens, childrenNames⟩ :=
        wellNested_of_references insidePassed
      obtain ⟨tree, nested, rfl, rfl, tokens⟩ :=
        wellNested_of_element split childrenNested childrenTokens
      refine ⟨tree, nested, ?_, ?_⟩
      · rw [← tokens, List.append_nil]
      · rw [Tree.typeNames_eq, childrenNames]

/-- **Span checking accepts exactly the well-nested streams.** A stream passes the test exactly when
it is the stream of one well-nested tree and of no other, and what the test collects are then the
tokens of that tree that name a type, in pre-order. -/
theorem check_iff_wellNested (list : TokenList) (tokens : List Token) :
    ((∃ found, check list tokens = .ok found) ↔
      ∃! tree : Tree, tree.WellNested ∧ tree.flatten = tokens) ∧
    ∀ found, check list tokens = .ok found ↔
      ∃ tree : Tree, tree.WellNested ∧ tree.flatten = tokens ∧ tree.typeNames = found := by
  refine ⟨⟨?_, ?_⟩, fun found => ⟨wellNested_of_check, ?_⟩⟩
  · rintro ⟨found, passed⟩
    obtain ⟨tree, nested, stream, _⟩ := wellNested_of_check passed
    refine ⟨tree, ⟨nested, stream⟩, ?_⟩
    rintro other ⟨otherNested, otherStream⟩
    exact otherNested.flatten_inj nested (otherStream.trans stream.symm)
  · rintro ⟨tree, ⟨nested, rfl⟩, _⟩
    exact ⟨tree.typeNames, check_flatten list nested⟩
  · rintro ⟨tree, nested, rfl, rfl⟩
    exact check_flatten list nested

end Span

end Sbe
