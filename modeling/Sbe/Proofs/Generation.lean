import Sbe.Proofs.Accepted
import Sbe.Proofs.Emitters
import Sbe.Proofs.Nesting
import Sbe.Token.Build

/-!
**Generation from an accepted schema fails on content only.**

The streams of an accepted schema can be taken apart by every emitter, at every depth of groups.
What is left to refuse is what the schema says in single places: a primitive that is missing or does
not fit, a constant that is missing, a value out of range, an unknown character set, a reserved
word, or a property that is of no type.

* `FailsOnContent`, `FailsOnContent.closed`: computations that refuse on content only and never
  fault, and emitters among them;
* `members_flattenAll`: the members of a composite are the trees inside it;
* `Plan.ofSchema_failsOnContent`: every step of the plan of an accepted schema fails on content
  only;
* `Schema.generate_ending_of_verify`: so does a whole run.
-/

namespace Sbe

/-- The causes that lie in what a schema says in one place, and not in how its streams nest, what
they hold in which order, or which names they define. -/
def SchemaError.IsContent : SchemaError → Prop
  | .unsupportedPrimitive .. | .missingPrimitive .. | .missingConstant .. | .reservedWord ..
  | .unsupportedCharset .. | .outOfRange .. | .choiceBit .. => True
  | .misplaced expected _ _ => expected = .encoding
  | _ => False

/-- A computation that, where it has no value, refuses on content. In particular it never faults. -/
def FailsOnContent {α : Type} (result : Result α) : Prop :=
  ∀ halt, result = .error halt → ∃ cause, halt = .refused cause ∧ cause.IsContent

namespace FailsOnContent

variable {α β : Type}

theorem of_eq_ok {result : Result α} {value : α} (done : result = .ok value) :
    FailsOnContent result := by
  intro halt failed
  rw [done] at failed
  cases failed

theorem ok (value : α) : FailsOnContent (.ok value : Result α) := of_eq_ok rfl

theorem refuse {cause : SchemaError} (content : cause.IsContent) :
    FailsOnContent (Outcome.refuse cause : Result α) := by
  intro halt failed
  cases failed
  exact ⟨cause, rfl, content⟩

theorem bind {first : Result α} {next : α → Result β} (firstFails : FailsOnContent first)
    (nextFails : ∀ value, first = .ok value → FailsOnContent (next value)) :
    FailsOnContent (first >>= next) := by
  cases first with
  | error halt =>
    intro other failed
    cases failed
    exact firstFails halt rfl
  | ok value => exact nextFails value rfl

theorem map {result : Result α} (fails : FailsOnContent result) (image : α → β) :
    FailsOnContent (result.map image) := by
  cases result with
  | error halt =>
    intro other failed
    cases failed
    exact fails halt rfl
  | ok value => exact ok (image value)

end FailsOnContent

theorem SchemaError.IsPlain.isContent {cause : SchemaError} (plain : cause.IsPlain) :
    cause.IsContent := by
  cases cause with
  | reservedWord => trivial
  | _ => exact plain

/-- A computation that fails on content only, under all settings. -/
def ContentOnly {α : Type} (make : Settings → Result α) : Prop :=
  ∀ settings, FailsOnContent (make settings)

/-- The test of names refuses a reserved word, which is content too. -/
theorem FailsOnContent.closed : Closed ContentOnly where
  pure _ _ := .ok _
  refuse plain _ := .refuse plain.isContent
  name formatted name settings := by
    show FailsOnContent (settings.escape formatted name)
    unfold Settings.escape
    split
    · split
      · split
        · exact .refuse trivial
        · exact .ok _
      · exact .refuse trivial
    · exact .ok _
  bind one two settings := (one settings).bind fun value _ => two value settings

namespace Source

/-! ### The members of a composite -/

/-- The count that a member is taken with is the number of tokens of its tree. -/
theorem memberSpan_eq {tree : Span.Tree} (nested : tree.WellNested) :
    (if tree.first.signal.isBegin then max tree.first.span 1 else 1) = tree.flatten.length := by
  cases nested with
  | leaf opens =>
    rw [Span.Tree.first, opens]
    rfl
  | node closes _ counted =>
    rw [Span.Tree.first, Signal.isBegin_of_closing? closes, if_pos rfl, counted,
      Span.Tree.length_flatten_node]
    omega

/-- The members of a composite are the trees inside it. -/
theorem members_flattenAll {trees : List Span.Tree} (nested : ∀ tree ∈ trees, tree.WellNested)
    {index : Nat} (fits : index + (Span.Tree.flattenAll trees).length < wordBound) :
    members index (Span.Tree.flattenAll trees) =
      .ok (trees.map fun tree => ⟨none, tree.first, tree.flatten.tail⟩) := by
  induction trees generalizing index with
  | nil => rw [Span.Tree.flattenAll, members, List.map_nil]
  | cons tree rest ih =>
    obtain ⟨first, later⟩ := List.forall_mem_cons.mp nested
    have size : tree.flatten.tail.length = tree.flatten.length - 1 := List.length_tail
    have filled : 0 < tree.flatten.length := by
      rw [Span.Tree.flatten_eq_cons]
      exact Nat.succ_pos _
    rw [Span.Tree.flattenAll_cons, List.length_append] at fits
    rw [Span.Tree.flattenAll_cons, Span.Tree.flatten_eq_cons, List.cons_append, members]
    dsimp only
    rw [memberSpan_eq first, if_neg (by omega), ← size, List.take_left, List.drop_left,
      ih later (by omega), Outcome.ok_bind]
    rfl

theorem inner_flatten (tree : Span.Tree) :
    inner tree.flatten = Span.Tree.flattenAll tree.children := by
  cases tree with
  | leaf token => rfl
  | node opening children closing =>
    rw [Span.Tree.flatten_node, inner, List.tail_cons, List.dropLast_concat]
    rfl

/-! ### Units -/

theorem headerPrimitive_contentOnly {schema : Schema}
    (header : ∀ field, ∃ token, schema.headerField field = .ok token) (field : HeaderField) :
    ContentOnly fun _ => schema.headerPrimitive field := by
  obtain ⟨token, found⟩ := header field
  rw [Schema.headerPrimitive, found]
  exact Token.primitive_closed FailsOnContent.closed token

theorem compositeUnit_contentOnly {schema : Schema}
    (header : ∀ field, ∃ token, schema.headerField field = .ok token) {list : TokenList}
    {tokens found : List Token} (nested : Span.check list tokens = .ok found) (first : Token)
    (side : Side) :
    ContentOnly fun settings => compositeUnit settings schema first tokens side := by
  obtain ⟨tree, wellNested, rfl, _⟩ := Span.wellNested_of_check nested
  have taken : ∃ properties, members 0 (inner tree.flatten) = .ok properties := by
    rw [inner_flatten]
    cases wellNested with
    | leaf => exact ⟨[], by rw [Span.Tree.children, Span.Tree.flattenAll, members]⟩
    | @node opening closing children _ _ counted inside =>
      refine ⟨_, members_flattenAll inside ?_⟩
      have small := opening.componentTokenCount.toNat_lt
      rw [Span.Tree.length_flatten_node, Token.span] at counted
      rw [Nat.zero_add, wordBound]
      omega
  obtain ⟨properties, taken⟩ := taken
  exact compositeUnit_closed FailsOnContent.closed (headerPrimitive_contentOnly header)
    (fun _ => .of_eq_ok taken) first side

/-- An accepted body can be taken apart. -/
theorem parts_of_accepted {body : Body} (accepted : body.Accepted) : Parts ContentOnly body := by
  cases accepted with
  | intro fieldsFound typed groupsFound _ _ varDataFound _ =>
    refine ⟨fun _ => .of_eq_ok fieldsFound, fun layouts found layout member => ?_,
      fun _ => .of_eq_ok groupsFound, fun _ => .of_eq_ok varDataFound⟩
    cases fieldsFound.symm.trans found
    cases type : layout.type with
    | nil => exact absurd type (typed layout member)
    | cons first others =>
      rw [Property.ofField, type]
      exact fun _ => .ok _

theorem messageUnit_contentOnly {schema : Schema}
    (header : ∀ field, ∃ token, schema.headerField field = .ok token) {tokens : List Token}
    {body : Body} (decomposed : Layout.decomposeMessage tokens = .ok body)
    (accepted : body.Accepted) (headerName : String) (first : Token) (side : Side) :
    ContentOnly fun settings => messageUnit settings schema headerName first tokens side := by
  refine messageUnit_closed FailsOnContent.closed (headerPrimitive_contentOnly header)
    (fun _ => .of_eq_ok decomposed) side (fun other path found => ?_) headerName first
  cases decomposed.symm.trans found
  refine ⟨parts_of_accepted accepted, groupTypes_closed FailsOnContent.closed
    (fun _ => parts_of_accepted) (fun body layouts accepted found => ?_) accepted path side⟩
  cases accepted with
  | intro _ _ groupsFound _ inside _ _ =>
    cases groupsFound.symm.trans found
    exact inside

end Source

/-! ### Plans -/

/-- A step of a plan that, where the run ends in it, ends it on content. -/
def PlanStep.FailsOnContent : PlanStep → Prop
  | .emit _ code => Sbe.FailsOnContent code
  | .stop cause => cause.IsContent

namespace Plan

/-- A run of such steps ends on content, or takes all of them. -/
theorem ending_of_failsOnContent {steps : List PlanStep}
    (each : ∀ step ∈ steps, step.FailsOnContent) {halt : Halt SchemaError}
    (ended : (run steps).ending = some halt) :
    ∃ cause, halt = .refused cause ∧ cause.IsContent := by
  induction steps with
  | nil => cases ended
  | cons step rest ih =>
    obtain ⟨first, later⟩ := List.forall_mem_cons.mp each
    cases step with
    | stop cause =>
      cases ended
      exact ⟨cause, rfl, first⟩
    | emit name code =>
      cases code with
      | error other =>
        cases ended
        exact first halt rfl
      | ok text => exact ih later ended

theorem sides_failsOnContent {typeName : String} {code : Source.Side → Result Source.Code}
    (each : ∀ side, FailsOnContent (code side)) :
    ∀ step ∈ sides typeName code, step.FailsOnContent := by
  intro step member
  obtain ⟨side, _, rfl⟩ := List.mem_map.mp member
  exact (each side).map Source.Code.text

variable {schema : Schema} (accepted : schema.Accepted) (settings : Settings)
include accepted

theorem headerFound (field : HeaderField) : ∃ token, schema.headerField field = .ok token := by
  obtain ⟨token, found, _⟩ := accepted.fields field
  exact ⟨token, found⟩

theorem ofType_failsOnContent {tokens : List Token} (member : tokens ∈ schema.types) :
    ∀ step ∈ ofType settings schema tokens, step.FailsOnContent := by
  have type := accepted.types tokens member
  obtain ⟨first, rest, rfl, opens⟩ := type.opening
  unfold ofType
  dsimp only
  split
  · intro step inside
    rw [List.mem_singleton.mp inside]
    exact (Source.enumUnit_closed FailsOnContent.closed _ _ settings).map Source.Code.text
  · exact sides_failsOnContent fun side => Source.setUnit_closed FailsOnContent.closed
      (Source.headerPrimitive_contentOnly (headerFound accepted)) _ _ side settings
  · exact sides_failsOnContent fun side => Source.compositeUnit_contentOnly (headerFound accepted)
      type.nested _ side settings
  · next noEnum noSet noComposite =>
    -- The signal of a type is one of the three that have a unit.
    simp only [Signal.opensType_iff, List.mem_cons, List.not_mem_nil, or_false] at opens
    rcases opens with opens | opens | opens
    · exact absurd opens noComposite
    · exact absurd opens noEnum
    · exact absurd opens noSet

theorem ofMessage_failsOnContent (headerName : String) {tokens : List Token}
    (member : tokens ∈ schema.messages) :
    ∀ step ∈ ofMessage settings schema headerName tokens, step.FailsOnContent := by
  obtain ⟨stream, body, decomposed, bodyAccepted⟩ := accepted.messages tokens member
  obtain ⟨first, rest, rfl, _⟩ := stream.opening
  exact sides_failsOnContent fun side => Source.messageUnit_contentOnly (headerFound accepted)
    decomposed bodyAccepted _ _ side settings

/-- Every step of the plan of an accepted schema fails on content only. -/
theorem ofSchema_failsOnContent : ∀ step ∈ ofSchema settings schema, step.FailsOnContent := by
  obtain ⟨first, rest, opening, _⟩ := accepted.header.opening
  unfold ofSchema
  rw [opening]
  dsimp only
  intro step member
  rcases List.mem_append.mp member with before | message
  · rcases List.mem_append.mp before with header | type
    · unfold ofHeader at header
      split at header
      · cases header
      · exact sides_failsOnContent (fun side => Source.compositeUnit_contentOnly
          (headerFound accepted) accepted.header.nested _ side settings) step header
    · obtain ⟨tokens, known, inside⟩ := List.mem_flatMap.mp type
      exact ofType_failsOnContent accepted settings known step inside
  · obtain ⟨tokens, known, inside⟩ := List.mem_flatMap.mp message
    exact ofMessage_failsOnContent accepted settings _ known step inside

end Plan

namespace Schema

/-- **Generation from a verified schema** takes all steps of its plan, or ends in a refusal on
content. It never faults, and no other cause can end it. -/
theorem generate_ending_of_verify {schema : Schema} (verified : schema.verify = .ok ())
    (settings : Settings) :
    (schema.generate settings).ending = none ∨
      ∃ cause, (schema.generate settings).ending = some (.refused cause) ∧ cause.IsContent := by
  have each := Plan.ofSchema_failsOnContent (verify_eq_ok_iff.mp verified) settings
  cases ended : (schema.generate settings).ending with
  | none => exact .inl rfl
  | some halt =>
    obtain ⟨cause, rfl, content⟩ := Plan.ending_of_failsOnContent each ended
    exact .inr ⟨cause, rfl, content⟩

/-- A schema with a type that a field refers to, a group and a field of variable length. -/
def fleet : Schema where
  packageName := "fleet"
  id := 7
  header := Build.messageHeader
  types := [Build.enumeration "Fuel" 0 (.of .uint8) [("petrol", .uint 0), ("type", .uint 1)]]
  messages := [Build.message "Truck" 1 1
    [Build.field "fuel" 1 0 (Build.enumeration "Fuel" 0 (.of .uint8) []),
      Build.group "axles" 2 0 2 Build.groupSize
        [Build.field "load" 3 0 [Build.value "load" 0 (.of .uint16)]],
      Build.varData "maker" 4 0 (Build.varDataEncoding none)]]

theorem fleet_generate_ending : fleet.verify = .ok () ∧ ∀ settings : Settings,
    (fleet.generate settings).ending = none ∨
      ∃ cause, (fleet.generate settings).ending = some (.refused cause) ∧ cause.IsContent := by
  have verified : fleet.verify = .ok () := Outcome.eq_ok_of_isOk (by decide +kernel)
  exact ⟨verified, generate_ending_of_verify verified⟩

end Schema

end Sbe
