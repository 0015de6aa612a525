import Sbe.Layout.Outline
import Sbe.Proofs.Outcome
import Sbe.Schema.Verify

/-!
**What verification accepts.**

Verification is a run through a schema that ends at the first fault. Here it is read as a property
of the schema: of each stream by itself, of the names that are defined, and of the names that are
referred to.

* `verifyBody_eq_ok_iff`: bodies, at every depth of groups;
* `verifyTypes_eq_ok_iff`: the types, whose names must differ;
* `verify_eq_ok_iff`: the whole schema.
-/

namespace Sbe

/-- A token of an unsigned primitive type. -/
def Token.IsUnsigned (token : Token) : Prop :=
  ∃ primitive, token.encoding.primitive = some primitive ∧ primitive.isUnsigned = true

/-- A token whose name and the name it refers to are identifiers. -/
def Token.IsNamed (token : Token) : Prop :=
  Name.isIdentifier token.name = true ∧
    ∀ name, token.referencedName = some name → Name.isIdentifier name = true

/-! ### The groups of a body -/

namespace Layout

/-- The groups of a body are the groups of its run. -/
theorem splitGroups_eq_groups (body : Body) :
    splitGroups 0 body.groups = (groups body).map (List.map Subtype.val) := by
  unfold groups
  split
  · next failed =>
    rw [failed]
    rfl
  · next found =>
    refine found.trans ?_
    simp [Except.map, Function.comp_def]

theorem splitGroups_of_groups {body : Body}
    {sized : List { layout : GroupLayout // layout.body.size < body.size }}
    (found : groups body = .ok sized) :
    splitGroups 0 body.groups = .ok (sized.map Subtype.val) := by
  rw [splitGroups_eq_groups, found]
  rfl

theorem exists_groups_of_splitGroups {body : Body} {layouts : List GroupLayout}
    (found : splitGroups 0 body.groups = .ok layouts) :
    ∃ sized, groups body = .ok sized ∧ sized.map Subtype.val = layouts := by
  rw [splitGroups_eq_groups] at found
  cases sized : groups body with
  | error halt => rw [sized] at found; cases found
  | ok known =>
    rw [sized] at found
    exact ⟨known, rfl, Except.ok.inj found⟩

theorem groups_of_splitGroups_error {body : Body} {halt : Halt SchemaError}
    (failed : splitGroups 0 body.groups = .error halt) : groups body = .error halt := by
  rw [splitGroups_eq_groups] at failed
  cases sized : groups body with
  | error other => rw [sized] at failed; cases failed; rfl
  | ok known => rw [sized] at failed; cases failed

end Layout

open Layout

/-- The outline of a body lists what its runs split into. -/
theorem Outline.ofBody_eq_ok {body : Body} {fields : List FieldLayout} {layouts : List GroupLayout}
    {outlines : List Outline} {varData : List VarDataLayout}
    (fieldsFound : splitFields 0 body.fields = .ok fields)
    (groupsFound : splitGroups 0 body.groups = .ok layouts)
    (each : (layouts.mapM fun layout => ofBody layout.group layout.body) = .ok outlines)
    (varDataFound : splitVarData 0 body.varData = .ok varData) (token : Token) :
    ofBody token body = .ok (.body token.name token.id token.version token.encodedLength
      (fields.map fun layout => layout.field.name) outlines
      (varData.map fun layout => layout.varData.name)) := by
  obtain ⟨sized, sizedFound, rfl⟩ := exists_groups_of_splitGroups groupsFound
  rw [List.mapM_map] at each
  rw [ofBody, fieldsFound, Outcome.ok_bind, sizedFound, Outcome.ok_bind]
  refine (congrArg (· >>= _) each).trans ?_
  rw [Outcome.ok_bind, varDataFound]
  rfl

/-- A body whose runs split into fields that have a type, groups with unsigned dimensions and an
accepted body each, and fields of variable length with an unsigned length. -/
inductive Body.Accepted : Body → Prop where
  | intro {body : Body} {fields : List FieldLayout} {layouts : List GroupLayout}
      {varData : List VarDataLayout}
      (fieldsFound : splitFields 0 body.fields = .ok fields)
      (typed : ∀ layout ∈ fields, layout.type ≠ [])
      (groupsFound : splitGroups 0 body.groups = .ok layouts)
      (dimensions : ∀ layout ∈ layouts,
        layout.blockLength.IsUnsigned ∧ layout.numInGroup.IsUnsigned)
      (inside : ∀ layout ∈ layouts, layout.body.Accepted)
      (varDataFound : splitVarData 0 body.varData = .ok varData)
      (lengths : ∀ layout ∈ varData, layout.length.IsUnsigned) : body.Accepted

/-- The references that a test of spans collects, none where it fails. -/
def foundReferences (list : TokenList) (tokens : List Token) : List Token :=
  match Span.check list tokens with
  | .ok found => found
  | .error _ => []

/-- A stream that is one element, opened by a signal of the right kind, all of whose names are
identifiers. -/
structure StreamAccepted (list : TokenList) (opens : Signal → Bool) (tokens : List Token) :
    Prop where
  nested : Span.check list tokens = .ok (foundReferences list tokens)
  opening : ∃ first rest, tokens = first :: rest ∧ opens first.signal = true
  named : ∀ token ∈ tokens, token.IsNamed

/-- A stream of a type. -/
def TypeAccepted (tokens : List Token) : Prop := StreamAccepted .type Signal.opensType tokens

/-- A stream of a message, with a body that is accepted. -/
def MessageAccepted (tokens : List Token) : Prop :=
  StreamAccepted .message (· == .beginMessage) tokens ∧
    ∃ body, decomposeMessage tokens = .ok body ∧ body.Accepted

namespace Schema

/-- A header that is accepted, with every field there and unsigned. -/
def HeaderAccepted (schema : Schema) : Prop :=
  StreamAccepted .header (· == .beginComposite) schema.header ∧
    ∀ field, ∃ token, schema.headerField field = .ok token ∧ token.IsUnsigned

/-- The names that types and header define. -/
def definedNames (schema : Schema) : List String :=
  schema.types.filterMap definedName ++ schema.headerName?.toList

/-- The tokens of types and messages that refer to a type. -/
def references (schema : Schema) : List Token :=
  schema.types.flatMap (foundReferences .type) ++ schema.messages.flatMap (foundReferences .message)

/-- A header of which every field is there and unsigned, types under different names, messages, and
no reference to a name that is not defined. -/
structure Accepted (schema : Schema) : Prop where
  header : StreamAccepted .header (· == .beginComposite) schema.header
  fields : ∀ field, ∃ token, schema.headerField field = .ok token ∧ token.IsUnsigned
  types : ∀ tokens ∈ schema.types, TypeAccepted tokens
  unique : (schema.types.filterMap definedName).Nodup
  messages : ∀ tokens ∈ schema.messages, MessageAccepted tokens
  closed : ∀ token ∈ schema.references, token.typeName ∈ schema.definedNames

/-! ### Single tests -/

theorem requireUnsigned_eq_ok_iff {token : Token} {done : Unit} :
    requireUnsigned token = .ok done ↔ token.IsUnsigned := by
  unfold requireUnsigned Token.primitive Token.IsUnsigned
  cases token.encoding.primitive with
  | none => simp [Outcome.ofOption]
  | some primitive =>
    rw [Outcome.ofOption, Outcome.ok_bind, Outcome.ite_refuse_eq_ok_iff]
    simp

theorem checkNames_eq_ok_iff {tokens : List Token} :
    checkNames tokens = .ok () ↔ ∀ token ∈ tokens, token.IsNamed := by
  unfold checkNames
  rw [Outcome.forM_eq_ok_iff]
  refine forall₂_congr fun token _ => ?_
  unfold Token.IsNamed
  dsimp only
  rw [Outcome.refuse_bind, Outcome.ite_refuse_eq_ok_iff]
  cases token.referencedName with
  | none => simp
  | some name =>
    dsimp only
    rw [Outcome.ite_refuse_eq_ok_iff]
    simp

theorem requireFirst_eq_ok_iff {expected : Signal} {test : Signal → Bool} {tokens : List Token}
    {first : Token} : requireFirst expected test tokens = .ok first ↔
      ∃ rest, tokens = first :: rest ∧ test first.signal = true := by
  cases tokens with
  | nil => simp [requireFirst]
  | cons token rest =>
    unfold requireFirst
    by_cases passed : test token.signal = true
    · simp only [passed, if_true]
      constructor
      · intro same
        cases same
        exact ⟨rest, rfl, passed⟩
      · rintro ⟨_, same, _⟩
        cases same
        rfl
    · simp only [passed]
      constructor
      · intro same
        cases same
      · rintro ⟨_, same, test⟩
        cases same
        exact absurd test passed

/-- The tests that every stream must pass, in the order in which they are made. -/
theorem streamAccepted_iff (expected : Signal) {list : TokenList} {test : Signal → Bool}
    {tokens : List Token} : StreamAccepted list test tokens ↔
      ∃ found first, Span.check list tokens = .ok found ∧
        requireFirst expected test tokens = .ok first ∧ checkNames tokens = .ok () := by
  constructor
  · rintro ⟨nested, ⟨first, rest, opening, signal⟩, named⟩
    exact ⟨_, first, nested, requireFirst_eq_ok_iff.mpr ⟨rest, opening, signal⟩,
      checkNames_eq_ok_iff.mpr named⟩
  · rintro ⟨found, first, nested, opening, named⟩
    obtain ⟨rest, opening, signal⟩ := requireFirst_eq_ok_iff.mp opening
    refine ⟨?_, ⟨first, rest, opening, signal⟩, checkNames_eq_ok_iff.mp named⟩
    rw [foundReferences, nested]

/-! ### Bodies -/

/-- One body, with what is asked of the bodies of its groups. -/
theorem verifyBody_eq_ok_step {body : Body} : verifyBody body = .ok () ↔
    (∃ fields, splitFields 0 body.fields = .ok fields ∧ ∀ layout ∈ fields, layout.type ≠ []) ∧
    (∃ layouts, splitGroups 0 body.groups = .ok layouts ∧ ∀ layout ∈ layouts,
      layout.blockLength.IsUnsigned ∧ layout.numInGroup.IsUnsigned ∧
        verifyBody layout.body = .ok ()) ∧
    ∃ varData, splitVarData 0 body.varData = .ok varData ∧
      ∀ layout ∈ varData, layout.length.IsUnsigned := by
  rw [verifyBody]
  simp only [Outcome.bind_eq_ok_iff, Outcome.forM_eq_ok_iff, requireUnsigned_eq_ok_iff]
  constructor
  · rintro ⟨fields, fieldsFound, _, typed, sized, sizedFound, _, inside, varData, varDataFound,
      lengths⟩
    refine ⟨⟨fields, fieldsFound, fun layout member => ?_⟩,
      ⟨_, splitGroups_of_groups sizedFound, ?_⟩, ⟨varData, varDataFound, lengths⟩⟩
    · have filled := (Outcome.ite_refuse_eq_ok_iff.mp (typed layout member)).1
      rwa [List.isEmpty_iff] at filled
    · intro layout member
      obtain ⟨item, itemMember, rfl⟩ := List.mem_map.mp member
      obtain ⟨_, blockLength, _, numInGroup, body⟩ := inside item itemMember
      exact ⟨blockLength, numInGroup, body⟩
  · rintro ⟨⟨fields, fieldsFound, typed⟩, ⟨layouts, layoutsFound, inside⟩, varData, varDataFound,
      lengths⟩
    obtain ⟨sized, sizedFound, rfl⟩ := exists_groups_of_splitGroups layoutsFound
    refine ⟨fields, fieldsFound, (), fun layout member => ?_, sized, sizedFound, (), ?_, varData,
      varDataFound, lengths⟩
    · rw [Outcome.ite_refuse_eq_ok_iff, List.isEmpty_iff]
      exact ⟨typed layout member, rfl⟩
    · intro item member
      obtain ⟨blockLength, numInGroup, body⟩ := inside item.val (List.mem_map_of_mem member)
      exact ⟨(), blockLength, (), numInGroup, body⟩

theorem verifyBody_eq_ok_iff {body : Body} : verifyBody body = .ok () ↔ body.Accepted := by
  constructor
  · induction size : body.size using Nat.strongRecOn generalizing body with
    | ind total ih =>
    intro passed
    obtain ⟨⟨fields, fieldsFound, typed⟩, ⟨layouts, layoutsFound, inside⟩, varData, varDataFound,
      lengths⟩ := verifyBody_eq_ok_step.mp passed
    refine .intro fieldsFound typed layoutsFound (fun layout member => ?_) (fun layout member => ?_)
      varDataFound lengths
    · exact ⟨(inside layout member).1, (inside layout member).2.1⟩
    · have smaller := size_lt_of_mem_splitGroups layoutsFound member
      have whole : body.groups.length ≤ body.size := by
        rw [Body.size]
        omega
      exact ih layout.body.size (by omega) rfl (inside layout member).2.2
  · intro accepted
    induction accepted with
    | intro fieldsFound typed groupsFound dimensions _ varDataFound lengths ih =>
      refine verifyBody_eq_ok_step.mpr ⟨⟨_, fieldsFound, typed⟩, ⟨_, groupsFound, ?_⟩,
        ⟨_, varDataFound, lengths⟩⟩
      intro layout member
      exact ⟨(dimensions layout member).1, (dimensions layout member).2, ih layout member⟩

/-! ### Streams -/

theorem verifyHeader_eq_ok_iff {schema : Schema} {done : Unit} : schema.verifyHeader = .ok done ↔
    StreamAccepted .header (· == .beginComposite) schema.header ∧
      ∀ field, ∃ token, schema.headerField field = .ok token ∧ token.IsUnsigned := by
  rw [streamAccepted_iff .beginComposite, verifyHeader]
  simp only [Outcome.bind_eq_ok_iff, Outcome.forM_eq_ok_iff, requireUnsigned_eq_ok_iff]
  constructor
  · rintro ⟨found, nested, first, opening, _, fields, named⟩
    refine ⟨⟨found, first, nested, opening, named⟩, fun field => fields field ?_⟩
    cases field <;> simp [headerFields]
  · rintro ⟨⟨found, first, nested, opening, named⟩, fields⟩
    exact ⟨found, nested, first, opening, (), fun field _ => fields field, named⟩

theorem verifyType_eq_ok_iff {defined : List String} {tokens found : List Token} {name : String} :
    verifyType defined tokens = .ok (name, found) ↔ TypeAccepted tokens ∧
      definedName tokens = some name ∧ name ∉ defined ∧ found = foundReferences .type tokens := by
  rw [TypeAccepted, streamAccepted_iff .beginComposite, verifyType]
  simp only [Outcome.bind_eq_ok_iff, Outcome.refuse_bind, Outcome.ite_refuse_eq_ok_iff]
  constructor
  · rintro ⟨_, nested, first, opening, fresh, _, named, same⟩
    cases same
    obtain ⟨rest, rfl, _⟩ := requireFirst_eq_ok_iff.mp opening
    refine ⟨⟨_, first, nested, opening, named⟩, rfl, ?_, ?_⟩
    · rwa [List.contains_iff_mem] at fresh
    · rw [foundReferences, nested]
  · rintro ⟨⟨_, first, nested, opening, named⟩, defines, fresh, rfl⟩
    obtain ⟨rest, rfl, _⟩ := requireFirst_eq_ok_iff.mp opening
    cases defines
    refine ⟨_, nested, first, opening, ?_, (), named, ?_⟩
    · rwa [List.contains_iff_mem]
    · rw [foundReferences, nested]
      rfl

theorem verifyTypes_eq_ok_iff {defined names : List String} {types : List (List Token)}
    {found : List Token} : verifyTypes defined types = .ok (names, found) ↔
      (∀ tokens ∈ types, TypeAccepted tokens) ∧ (types.filterMap definedName).Nodup ∧
      (∀ name ∈ types.filterMap definedName, name ∉ defined) ∧
      names = defined ++ types.filterMap definedName ∧
      found = types.flatMap (foundReferences .type) := by
  induction types generalizing defined names found with
  | nil =>
    rw [verifyTypes]
    simp [eq_comm]
  | cons tokens rest ih =>
    rw [verifyTypes, Outcome.bind_eq_ok_iff]
    constructor
    · rintro ⟨⟨name, references⟩, first, done⟩
      obtain ⟨⟨allNames, others⟩, later, same⟩ := Outcome.bind_eq_ok_iff.mp done
      cases same
      obtain ⟨accepted, defines, fresh, rfl⟩ := verifyType_eq_ok_iff.mp first
      obtain ⟨allAccepted, unique, allFresh, rfl, rfl⟩ := ih.mp later
      rw [List.filterMap_cons_some defines]
      refine ⟨List.forall_mem_cons.mpr ⟨accepted, allAccepted⟩, ?_, ?_, ?_, ?_⟩
      · refine List.nodup_cons.mpr ⟨fun again => ?_, unique⟩
        exact allFresh name again (List.mem_append_right _ (List.mem_singleton_self name))
      · refine List.forall_mem_cons.mpr ⟨fresh, fun other member inside => ?_⟩
        exact allFresh other member (List.mem_append_left _ inside)
      · rw [List.append_assoc, List.singleton_append]
      · rw [List.flatMap_cons]
    · rintro ⟨allAccepted, unique, allFresh, rfl, rfl⟩
      obtain ⟨accepted, restAccepted⟩ := List.forall_mem_cons.mp allAccepted
      obtain ⟨first, opening, rfl, _⟩ := accepted.opening
      have defines : definedName (first :: opening) = some first.typeName := rfl
      rw [List.filterMap_cons_some defines] at unique allFresh ⊢
      obtain ⟨fresh, restFresh⟩ := List.forall_mem_cons.mp allFresh
      obtain ⟨new, restUnique⟩ := List.nodup_cons.mp unique
      refine ⟨_, verifyType_eq_ok_iff.mpr ⟨accepted, defines, fresh, rfl⟩, ?_⟩
      refine Outcome.bind_eq_ok_iff.mpr
        ⟨_, ih.mpr ⟨restAccepted, restUnique, fun name member inside => ?_, rfl, rfl⟩, ?_⟩
      · rcases List.mem_append.mp inside with old | same
        · exact restFresh name member old
        · rw [List.mem_singleton.mp same] at member
          exact new member
      · rw [List.append_assoc, List.singleton_append, List.flatMap_cons]
        rfl

theorem verifyMessage_eq_ok_iff {tokens found : List Token} :
    verifyMessage tokens = .ok found ↔
      MessageAccepted tokens ∧ found = foundReferences .message tokens := by
  rw [MessageAccepted, streamAccepted_iff .beginMessage, verifyMessage]
  simp only [Outcome.bind_eq_ok_iff]
  constructor
  · rintro ⟨_, nested, first, opening, _, named, body, decomposed, _, passed, same⟩
    cases same
    refine ⟨⟨⟨_, first, nested, opening, named⟩, body, decomposed, ?_⟩, ?_⟩
    · exact verifyBody_eq_ok_iff.mp passed
    · rw [foundReferences, nested]
  · rintro ⟨⟨⟨_, first, nested, opening, named⟩, body, decomposed, accepted⟩, rfl⟩
    refine ⟨_, nested, first, opening, (), named, body, decomposed, (),
      verifyBody_eq_ok_iff.mpr accepted, ?_⟩
    rw [foundReferences, nested]
    rfl

/-! ### Schemas -/

theorem testDefined_eq_ok_iff {names : List String} {tokens : List Token} :
    (tokens.forM fun token => if names.contains token.typeName then (pure () : Result Unit)
      else .refuse (.unknownType token.typeName token.name)) = .ok () ↔
      ∀ token ∈ tokens, token.typeName ∈ names := by
  rw [Outcome.forM_eq_ok_iff]
  refine forall₂_congr fun token _ => ?_
  rw [← List.contains_iff_mem]
  by_cases known : names.contains token.typeName = true
  · rw [if_pos known]
    exact iff_of_true rfl known
  · rw [if_neg known]
    exact iff_of_false (Outcome.refuse_ne_ok _ _) known

/-- **What verification accepts**, as a property of the schema. -/
theorem verify_eq_ok_iff {schema : Schema} : schema.verify = .ok () ↔ schema.Accepted := by
  have known : ∀ tokens found, verifyMessage tokens = .ok found →
      found = foundReferences .message tokens := fun tokens found done =>
    (verifyMessage_eq_ok_iff.mp done).2
  have collected : schema.references = schema.types.flatMap (foundReferences .type) ++
      (schema.messages.map (foundReferences .message)).flatten := by
    rw [references, ← List.flatMap_def]
  rw [verify]
  simp only [Outcome.bind_eq_ok_iff, verifyHeader_eq_ok_iff]
  constructor
  · rintro ⟨_, ⟨header, fields⟩, ⟨names, typeReferences⟩, types, messageReferences, messages,
      closed⟩
    obtain ⟨typesAccepted, unique, _, rfl, rfl⟩ := verifyTypes_eq_ok_iff.mp types
    obtain ⟨each, rfl⟩ := (Outcome.mapM_eq_ok_iff known).mp messages
    refine ⟨header, fields, typesAccepted, unique, fun tokens member => ?_, ?_⟩
    · exact (verifyMessage_eq_ok_iff.mp (each tokens member)).1
    · rw [collected]
      exact testDefined_eq_ok_iff.mp closed
  · rintro ⟨header, fields, types, unique, messages, closed⟩
    rw [collected] at closed
    refine ⟨(), ⟨header, fields⟩, (_, _), verifyTypes_eq_ok_iff.mpr ⟨types, unique, ?_, rfl, rfl⟩,
      _, (Outcome.mapM_eq_ok_iff known).mpr ⟨fun tokens member => ?_, rfl⟩, ?_⟩
    · intro name _ inside
      cases inside
    · exact verifyMessage_eq_ok_iff.mpr ⟨messages tokens member, rfl⟩
    · exact testDefined_eq_ok_iff.mpr closed

end Schema

end Sbe
