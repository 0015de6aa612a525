import Sbe.Proofs.NestedLayout
import Sbe.Token.Build

/-!
**Verification faults only where a count overflows.**

The counts of a stream are not trusted, and yet an index and a count are added before the sum is
compared with anything. A stream can so be written that the sum passes the largest word, which ends
verification without an answer. It happens nowhere else: what is not read off the counts is bounded
by the stream.

* `Overflows`: tokens among which the walk meets such a sum;
* `references_eq_fault_iff`, `check_eq_fault_iff`: the walk faults on exactly those;
* `Overflows.exists_count`: and there a token counts nearly as many tokens as a word can;
* `verify_eq_fault_iff`: a schema faults exactly at the first stream that is not refused before.
-/

namespace Sbe

open Outcome (Answers)

namespace Span

/-- Tokens from an index on among which a token opens an element whose end would be past the largest
word: the first of them, or one inside the element it opens, or one behind elements that are in
order. -/
inductive Overflows : Nat → List Token → Prop where
  | here {index : Nat} {token : Token} {rest : List Token} (opens : token.signal.isBegin = true)
      (counted : 2 ≤ token.span) (beyond : wordBound ≤ index + token.span) :
      Overflows index (token :: rest)
  | inside {index : Nat} {opening closing : Token} {inner after : List Token}
      (closes : opening.signal.closing? = some closing.signal) (named : closing.name = opening.name)
      (counted : opening.span = inner.length + 2) (deeper : Overflows (index + 1) inner) :
      Overflows index (opening :: (inner ++ closing :: after))
  | behind {index : Nat} {tree : Tree} {after : List Token} (nested : tree.WellNested)
    (later : Overflows (index + tree.flatten.length) after) : Overflows index
    (tree.flatten ++ after)

/-- A stream that overflows inside its first element. The first token itself stands at index zero,
where no count is too large. -/
def Overruns (tokens : List Token) : Prop :=
  ∃ (opening closing : Token) (inner after : List Token),
    tokens = opening :: (inner ++ closing :: after) ∧
    opening.signal.closing? = some closing.signal ∧ closing.name = opening.name ∧
    opening.span = inner.length + 2 ∧ Overflows 1 inner

theorem element_eq_fault_iff {index : Nat} {token : Token} {rest : List Token} :
    element index token rest = .error .fault ↔
      token.signal.isBegin = true ∧ 2 ≤ token.span ∧ wordBound ≤ index + token.span := by
  cases closes : token.signal.closing? with
  | none =>
    have single : token.signal.isBegin = false := by rw [Signal.isBegin, closes]; rfl
    rw [element, closes, single]
    by_cases ends : token.signal.isEnd = true
    · simp [ends, Outcome.refuse]
    · simp [ends]
  | some closing =>
    rw [element, Signal.not_isEnd_of_closing? closes, Signal.isBegin_of_closing? closes, closes]
    simp only [Bool.false_eq_true, if_false, true_and]
    by_cases few : token.span < 2
    · rw [if_pos few]
      refine iff_of_false ?_ (by omega)
      simp [Outcome.refuse]
    · rw [if_neg few]
      by_cases beyond : wordBound ≤ index + token.span
      · rw [if_pos beyond]
        exact iff_of_true rfl ⟨by omega, beyond⟩
      · rw [if_neg beyond]
        refine iff_of_false ?_ fun both => beyond both.2
        split
        · simp [Outcome.refuse]
        · split
          · simp
          · simp [Outcome.refuse]

theorem Overflows.not_nil {index : Nat} : ¬ Overflows index [] := by
  intro overflow
  generalize empty : ([] : List Token) = tokens at overflow
  cases overflow with
  | here => cases empty
  | inside => cases empty
  | @behind _ tree =>
    rw [Tree.flatten_eq_cons] at empty
    cases empty

theorem references_of_element_error {parent : Option Signal} {index : Nat} {token : Token}
    {rest : List Token} {halt : Halt SchemaError}
    (failed : element index token rest = .error halt) :
    references parent index (token :: rest) = .error halt := by
  rw [references]
  split
  · next found =>
    rw [failed] at found
    cases found
    rfl
  · next found =>
    rw [failed] at found
    cases found

theorem Overflows.references_eq {index : Nat} {tokens : List Token}
    (overflow : Overflows index tokens) :
    ∀ parent, references parent index tokens = .error .fault := by
  induction overflow with
  | here opens counted beyond =>
    intro parent
    exact references_of_element_error (element_eq_fault_iff.mpr ⟨opens, counted, beyond⟩)
  | @inside index opening closing inner after closes named counted _ ih =>
    intro parent
    by_cases fits : index + opening.span < wordBound
    · rw [references_cons (element_node closes named counted fits), ih]
      rfl
    · refine references_of_element_error (element_eq_fault_iff.mpr ⟨?_, by omega, by omega⟩)
      exact Signal.isBegin_of_closing? closes
  | @behind index tree after nested _ ih =>
    intro parent
    cases nested with
    | @leaf token opens closes =>
      have later : references parent (index + 1) after = .error .fault := ih parent
      rw [Tree.flatten, List.singleton_append, references_cons (element_leaf opens closes),
        references, Outcome.ok_bind, Nat.sub_self, Nat.add_zero, later]
      rfl
    | @node opening closing children closes named counted inside =>
      rw [← counted] at ih
      rw [Tree.length_flatten_node] at counted
      have next : index + 1 +
          ((Tree.flattenAll children ++ closing :: after).length - after.length) =
          index + opening.span := by
        rw [List.length_append, List.length_cons]
        omega
      rw [Tree.flatten_node, List.cons_append, List.append_assoc, List.singleton_append]
      by_cases fits : index + opening.span < wordBound
      · rw [references_cons (element_node closes named counted fits),
          references_flattenAll inside (by omega), Outcome.ok_bind, next, ih]
        rfl
      · refine references_of_element_error (element_eq_fault_iff.mpr ⟨?_, by omega, by omega⟩)
        exact Signal.isBegin_of_closing? closes

/-- **The walk over a stream faults exactly where a count overflows.** -/
theorem references_eq_fault_iff {parent : Option Signal} {index : Nat} {tokens : List Token} :
    references parent index tokens = .error .fault ↔ Overflows index tokens := by
  refine ⟨fun faulted => ?_, fun overflow => overflow.references_eq parent⟩
  fun_induction references parent index tokens with
  | case1 => cases faulted
  | case2 parent index token rest halt failed =>
    cases faulted
    obtain ⟨opens, counted, beyond⟩ := element_eq_fault_iff.mp failed
    exact .here opens counted beyond
  | case3 parent index token rest inner after split _ ihInside ihOthers =>
    rcases Outcome.bind_eq_error_iff.mp faulted with inside | ⟨found, passed, faulted⟩
    · have deeper := ihInside inside
      obtain ⟨_, _, rfl, _⟩ | ⟨closing, closes, named, counted, rfl⟩ := element_cases split
      · exact absurd deeper Overflows.not_nil
      · exact .inside closes named counted deeper
    · rcases Outcome.bind_eq_error_iff.mp faulted with others | ⟨_, _, ended⟩
      · obtain ⟨children, nested, tokens, _⟩ := wellNested_of_references passed
        obtain ⟨tree, treeNested, _, _, whole⟩ := wellNested_of_element split nested tokens
        have size := congrArg List.length whole
        rw [List.length_append, List.length_cons] at size
        have later := ihOthers others
        rw [show index + 1 + (rest.length - after.length) = index + tree.flatten.length by omega]
          at later
        rw [← whole]
        exact .behind treeNested later
      · cases ended

theorem check_eq_fault_iff {list : TokenList} {tokens : List Token} :
    check list tokens = .error .fault ↔ Overruns tokens := by
  cases tokens with
  | nil =>
    refine iff_of_false (by simp [check, Outcome.refuse]) ?_
    rintro ⟨_, _, _, _, same, _⟩
    cases same
  | cons token rest =>
    have start : 0 + token.span < wordBound := by
      rw [Nat.zero_add]
      exact token.componentTokenCount.toNat_lt
    rw [check, Outcome.bind_eq_error_iff]
    constructor
    · rintro (failed | ⟨⟨inner, after⟩, split, faulted⟩)
      · obtain ⟨_, _, beyond⟩ := element_eq_fault_iff.mp failed
        omega
      · rcases Outcome.bind_eq_error_iff.mp faulted with inside | ⟨_, _, ended⟩
        · have deeper := references_eq_fault_iff.mp inside
          obtain ⟨_, _, rfl, _⟩ | ⟨closing, closes, named, counted, rfl⟩ := element_cases split
          · exact absurd deeper Overflows.not_nil
          · exact ⟨token, closing, inner, after, rfl, closes, named, counted, deeper⟩
        · split at ended <;> cases ended
    · rintro ⟨opening, closing, inner, after, same, closes, named, counted, deeper⟩
      cases same
      refine .inr ⟨_, element_node closes named counted start, ?_⟩
      dsimp only
      rw [deeper.references_eq]
      rfl

/-- Where a stream overflows there is a token that counts nearly as many tokens as a word can. -/
theorem Overflows.exists_count {index : Nat} {tokens : List Token}
    (overflow : Overflows index tokens) :
    ∃ place token, tokens[place]? = some token ∧ token.signal.isBegin = true ∧
      wordBound ≤ index + place + token.span := by
  induction overflow with
  | @here _ token rest opens _ beyond => exact ⟨0, token, rfl, opens, beyond⟩
  | inside _ _ _ _ ih =>
    obtain ⟨place, token, found, opens, beyond⟩ := ih
    refine ⟨place + 1, token, ?_, opens, by omega⟩
    obtain ⟨bound, _⟩ := List.getElem?_eq_some_iff.mp found
    rw [List.getElem?_cons_succ, List.getElem?_append_left bound, found]
  | @behind index tree after _ _ ih =>
    obtain ⟨place, token, found, opens, beyond⟩ := ih
    refine ⟨tree.flatten.length + place, token, ?_, opens, by omega⟩
    rw [List.getElem?_append_right (Nat.le_add_right _ _), Nat.add_sub_cancel_left, found]

theorem Overruns.exists_count {tokens : List Token} (overruns : Overruns tokens) :
    ∃ index token, tokens[index]? = some token ∧ 0 < index ∧ token.signal.isBegin = true ∧
      wordBound ≤ index + token.span := by
  obtain ⟨opening, closing, inner, after, rfl, _, _, _, overflow⟩ := overruns
  obtain ⟨place, token, found, opens, beyond⟩ := overflow.exists_count
  obtain ⟨bound, _⟩ := List.getElem?_eq_some_iff.mp found
  refine ⟨place + 1, token, ?_, Nat.succ_pos place, opens, by omega⟩
  rw [List.getElem?_cons_succ, List.getElem?_append_left bound, found]

end Span

/-! ### Verification -/

namespace Schema

open Layout Sbe.Span

theorem requireFirst_answers {expected : Signal} {test : Signal → Bool} {tokens : List Token}
    (filled : tokens ≠ []) : Answers (requireFirst expected test tokens) fun first =>
      tokens.head? = some first ∧ test first.signal = true := by
  refine .of_ne_fault ?_ fun first passed => ?_
  · cases tokens with
    | nil => exact absurd rfl filled
    | cons token rest =>
      rw [requireFirst]
      split
      · simp
      · simp [Outcome.refuse]
  · obtain ⟨rest, rfl, opens⟩ := requireFirst_eq_ok_iff.mp passed
    exact ⟨rfl, opens⟩

theorem checkNames_answers (tokens : List Token) : Answers (checkNames tokens) fun _ => True := by
  refine .forM fun token _ => ?_
  dsimp only
  refine .ite (.refuse _) ?_
  cases token.referencedName with
  | none => trivial
  | some name => exact .ite (.refuse _) trivial

theorem filled_of_check {list : TokenList} {tokens found : List Token}
    (passed : check list tokens = .ok found) : tokens ≠ [] := by
  rintro rfl
  cases passed

theorem verifyHeader_eq_fault_iff {schema : Schema} :
    schema.verifyHeader = .error .fault ↔ Overruns schema.header := by
  rw [verifyHeader, Answers.bind_eq_fault_iff, check_eq_fault_iff]
  intro found passed
  refine (requireFirst_answers (filled_of_check passed)).bind fun _ _ => ?_
  refine (Answers.forM fun field _ => ?_).bind fun _ _ => checkNames_answers _
  have found : Answers (schema.headerField field) fun _ => True := .ofOption _ fun _ _ => trivial
  exact found.bind fun token _ => requireUnsigned_answers token

theorem verifyType_eq_fault_iff {defined : List String} {tokens : List Token} :
    verifyType defined tokens = .error .fault ↔ Overruns tokens := by
  rw [verifyType, Answers.bind_eq_fault_iff, check_eq_fault_iff]
  intro found passed
  refine (requireFirst_answers (filled_of_check passed)).bind fun first _ => ?_
  refine .ite (.refuse _) ?_
  exact (checkNames_answers tokens).bind fun _ _ => trivial

/-- A message whose spans are in order is decomposed without a fault, and so is each of its
groups. -/
theorem verifyMessage_eq_fault_iff {tokens : List Token} :
    verifyMessage tokens = .error .fault ↔ Overruns tokens := by
  rw [verifyMessage, Answers.bind_eq_fault_iff, check_eq_fault_iff]
  intro found passed
  refine (requireFirst_answers (filled_of_check passed)).bind fun first opening => ?_
  obtain ⟨tree, nested, rfl, _⟩ := wellNested_of_check passed
  have opens : tree.first.signal = .beginMessage := by
    rw [Tree.flatten_eq_cons, List.head?_cons, Option.some_inj] at opening
    rw [opening.1]
    exact beq_iff_eq.mp opening.2
  refine (checkNames_answers _).bind fun _ _ => ?_
  refine (decomposeMessage_answers nested opens).bind fun body inside => ?_
  exact (verifyBody_answers inside).bind fun _ _ => trivial

theorem verifyTypes_eq_fault_iff {defined : List String} {types : List (List Token)} :
    verifyTypes defined types = .error .fault ↔
      ∃ before tokens after, types = before ++ tokens :: after ∧
        (∃ result, verifyTypes defined before = .ok result) ∧ Overruns tokens := by
  induction types generalizing defined with
  | nil => simp [verifyTypes]
  | cons first rest ih =>
    rw [verifyTypes, Outcome.bind_eq_error_iff, verifyType_eq_fault_iff]
    constructor
    · rintro (overruns | ⟨⟨name, references⟩, passed, faulted⟩)
      · exact ⟨[], first, rest, rfl, ⟨_, rfl⟩, overruns⟩
      · rcases Outcome.bind_eq_error_iff.mp faulted with faulted | ⟨_, _, ended⟩
        · obtain ⟨before, tokens, after, rfl, ⟨result, done⟩, overruns⟩ := ih.mp faulted
          refine ⟨first :: before, tokens, after, rfl, ⟨(result.1, references ++ result.2), ?_⟩,
            overruns⟩
          rw [verifyTypes, passed, Outcome.ok_bind]
          dsimp only
          rw [done]
          rfl
        · cases ended
    · rintro ⟨before, tokens, after, split, ⟨result, done⟩, overruns⟩
      cases before with
      | nil =>
        cases split
        exact .inl overruns
      | cons other before =>
        cases split
        rw [verifyTypes] at done
        obtain ⟨⟨name, references⟩, passed, done⟩ := Outcome.bind_eq_ok_iff.mp done
        obtain ⟨later, done, _⟩ := Outcome.bind_eq_ok_iff.mp done
        refine .inr ⟨_, passed, ?_⟩
        dsimp only
        rw [ih.mpr ⟨before, tokens, after, rfl, ⟨later, done⟩, overruns⟩]
        rfl

/-- The streams that verification gets to: the header, then each type and each message before which
all was accepted. -/
inductive Reaches (schema : Schema) : List Token → Prop where
  | header : schema.Reaches schema.header
  | type {before after : List (List Token)} {tokens : List Token} (header : schema.HeaderAccepted)
      (split : schema.types = before ++ tokens :: after)
      (accepted : ∀ earlier ∈ before, TypeAccepted earlier)
      (unique : (before.filterMap definedName).Nodup) : schema.Reaches tokens
  | message {before after : List (List Token)} {tokens : List Token}
    (header : schema.HeaderAccepted)
      (types : ∀ type ∈ schema.types, TypeAccepted type)
      (unique : (schema.types.filterMap definedName).Nodup)
      (split : schema.messages = before ++ tokens :: after)
      (accepted : ∀ earlier ∈ before, MessageAccepted earlier) : schema.Reaches tokens

theorem exists_verifyTypes_iff {types : List (List Token)} :
    (∃ result, verifyTypes [] types = .ok result) ↔
      (∀ tokens ∈ types, TypeAccepted tokens) ∧ (types.filterMap definedName).Nodup := by
  constructor
  · rintro ⟨⟨names, found⟩, done⟩
    obtain ⟨accepted, unique, _⟩ := verifyTypes_eq_ok_iff.mp done
    exact ⟨accepted, unique⟩
  · rintro ⟨accepted, unique⟩
    exact ⟨_, verifyTypes_eq_ok_iff.mpr ⟨accepted, unique, by simp, rfl, rfl⟩⟩

theorem exists_verifyMessage_iff {tokens : List Token} :
    (∃ found, verifyMessage tokens = .ok found) ↔ MessageAccepted tokens := by
  simp [verifyMessage_eq_ok_iff]

theorem verify_eq_fault_iff {schema : Schema} :
    schema.verify = .error .fault ↔ ∃ tokens, schema.Reaches tokens ∧ Overruns tokens := by
  have tested (names : List String) (tokens : List Token) :
      (tokens.forM fun token => if names.contains token.typeName then (pure () : Result Unit)
        else .refuse (.unknownType token.typeName token.name)) ≠ .error .fault := by
    refine (Answers.forM fun token _ => ?_).ne_fault
    exact .ite trivial (.refuse _)
  rw [verify, Outcome.bind_eq_error_iff, verifyHeader_eq_fault_iff]
  constructor
  · rintro (overruns | ⟨_, header, faulted⟩)
    · exact ⟨_, .header, overruns⟩
    have header := verifyHeader_eq_ok_iff.mp header
    rcases Outcome.bind_eq_error_iff.mp faulted with faulted | ⟨_, types, faulted⟩
    · obtain ⟨before, tokens, after, split, done, overruns⟩ := verifyTypes_eq_fault_iff.mp faulted
      obtain ⟨accepted, unique⟩ := exists_verifyTypes_iff.mp done
      exact ⟨tokens, .type header split accepted unique, overruns⟩
    obtain ⟨accepted, unique⟩ := exists_verifyTypes_iff.mp ⟨_, types⟩
    rcases Outcome.bind_eq_error_iff.mp faulted with faulted | ⟨_, _, faulted⟩
    · obtain ⟨before, tokens, after, split, earlier, faulted⟩ :=
        Outcome.mapM_eq_error_iff.mp faulted
      refine ⟨tokens, .message header accepted unique split fun other member => ?_, ?_⟩
      · exact exists_verifyMessage_iff.mp (earlier other member)
      · exact verifyMessage_eq_fault_iff.mp faulted
    · exact absurd faulted (tested _ _)
  · rintro ⟨tokens, reached, overruns⟩
    cases reached with
    | header => exact .inl overruns
    | type header split accepted unique =>
      refine .inr ⟨(), verifyHeader_eq_ok_iff.mpr header, ?_⟩
      rw [verifyTypes_eq_fault_iff.mpr
        ⟨_, tokens, _, split, exists_verifyTypes_iff.mpr ⟨accepted, unique⟩, overruns⟩]
      rfl
    | message header types unique split accepted =>
      obtain ⟨result, done⟩ := exists_verifyTypes_iff.mpr ⟨types, unique⟩
      refine .inr ⟨(), verifyHeader_eq_ok_iff.mpr header, ?_⟩
      rw [done, Outcome.ok_bind, Outcome.mapM_eq_error_iff.mpr ⟨_, tokens, _, split, ?_, ?_⟩]
      · rfl
      · exact fun other member => exists_verifyMessage_iff.mpr (accepted other member)
      · exact verifyMessage_eq_fault_iff.mpr overruns

/-- A stream that verification gets to is one of the schema. -/
theorem Reaches.mem_streams {schema : Schema} {tokens : List Token}
    (reached : schema.Reaches tokens) :
    tokens ∈ schema.header :: (schema.types ++ schema.messages) := by
  cases reached with
  | header => exact List.mem_cons_self
  | type _ split => simp [split]
  | message _ _ _ split => simp [split]

/-- **Verification ends with an answer except where a count overflows.** It faults exactly when a
stream that it gets to overflows inside its first element; so it does not fault on a schema in which
every opening token, with the number of tokens before it, counts less than the largest word. -/
theorem verify_answers_unless_overflow (schema : Schema) :
    (schema.verify = .error .fault ↔ ∃ tokens, schema.Reaches tokens ∧ Overruns tokens) ∧
    ((∀ tokens ∈ schema.header :: (schema.types ++ schema.messages), ∀ index token,
        tokens[index]? = some token → token.signal.isBegin = true → 0 < index →
          index + token.span < wordBound) →
      schema.verify ≠ .error .fault) := by
  refine ⟨verify_eq_fault_iff, fun counts faulted => ?_⟩
  obtain ⟨tokens, reached, overruns⟩ := verify_eq_fault_iff.mp faulted
  obtain ⟨index, token, found, after, opens, beyond⟩ := overruns.exists_count
  exact absurd (counts tokens reached.mem_streams index token found opens after) (by omega)

/-- A set inside a composite that counts as many tokens as a word can. -/
def endless : Schema where
  packageName := "endless"
  id := 1
  header := Build.messageHeader
  types := [(Build.composite "Engine" 0 1
    [Build.bitSet "Fuel" 0 (Encoding.of .uint8) [("x", 1)]]).modify 1 fun token =>
      { token with componentTokenCount := 18446744073709551615 }]

/-- The count is added to the index before it is compared with the size of the composite. -/
theorem endless_verify_faults : endless.verify = .error .fault := by
  decide +kernel

end Schema

end Sbe
