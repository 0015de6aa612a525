import Sbe.Proofs.Rewording
import Sbe.Token.Build

/-!
**The token for reserved words.**

Every name of a generated item goes through one test, which refuses a reserved word or appends the
token of the settings to it. A token does nothing else: it only lets runs go on that would have
refused a word.

* `Unreserved`: computations that refuse no reserved word;
* `Eases`, `Eases.closed`: computations that a token changes only where they refuse a word without
  one, and emitters among them;
* `Schema.generate_token_conservative`: whole runs.
-/

namespace Sbe

/-- The causes that a token leaves: all but a reserved word. -/
def SchemaError.Remains : SchemaError → Prop
  | .reservedWord _ => False
  | _ => True

/-! ### Computations that refuse no reserved word -/

/-- A computation that does not end with the refusal of a reserved word. -/
def Unreserved {α : Type} (result : Result α) : Prop :=
  ∀ cause, result = .error (.refused cause) → cause.Remains

namespace Unreserved

variable {α β : Type}

theorem ok (value : α) : Unreserved (.ok value : Result α) := by
  intro cause failed
  cases failed

theorem fault : Unreserved (Outcome.fault : Result α) := by
  intro cause failed
  cases failed

theorem refuse {cause : SchemaError} (remains : cause.Remains) :
    Unreserved (Outcome.refuse cause : Result α) := by
  intro same failed
  cases failed
  exact remains

theorem ofOption {cause : SchemaError} (remains : cause.Remains) (option : Option α) :
    Unreserved (Outcome.ofOption cause option) := by
  cases option with
  | none => exact refuse remains
  | some value => exact ok value

theorem bind {first : Result α} {next : α → Result β} (one : Unreserved first)
    (two : ∀ value, first = .ok value → Unreserved (next value)) : Unreserved (first >>= next) := by
  intro cause failed
  rcases Outcome.bind_eq_error_iff.mp failed with failed | ⟨value, done, failed⟩
  · exact one cause failed
  · exact two value done cause failed

theorem ite {condition : Prop} [Decidable condition] {yes no : Result α} (one : Unreserved yes)
    (two : Unreserved no) : Unreserved (if condition then yes else no) := by
  split
  · exact one
  · exact two

end Unreserved

theorem Token.primitive_unreserved (token : Token) : Unreserved token.primitive :=
  .ofOption (by trivial) _

namespace Layout

/-! ### Layouts -/

theorem splitSpan_unreserved (index : Nat) (token : Token) (rest : List Token) :
    Unreserved (splitSpan index token rest) :=
  .ite (.refuse trivial) (.ite .fault (.ite (.refuse trivial) (.ok _)))

theorem closedSpan_unreserved (index : Nat) (token : Token) (rest : List Token) :
    Unreserved (closedSpan index token rest) := by
  unfold closedSpan
  split
  · exact .refuse trivial
  · exact (splitSpan_unreserved index token rest).bind fun _ _ => .ite (.ok _) (.refuse trivial)

theorem collect_unreserved (signal : Signal) (index : Nat) (tokens : List Token) :
    Unreserved (collect signal index tokens) := by
  induction index, tokens using scan_induct with
  | nil index =>
    rw [collect]
    exact .ok _
  | cons index token rest ih =>
    rw [collect_eq]
    refine .ite ((splitSpan_unreserved index token rest).bind fun parts split => ?_) (.ok _)
    exact (ih _ parts.2 (splitSpan_length split)).bind fun _ _ => .ok _

theorem decompose_unreserved (tokens : List Token) (index : Nat) :
    Unreserved (decompose tokens index) := by
  have each (signal : Signal) (index : Nat) : Unreserved (collectAt signal tokens index) :=
    .ite .fault ((collect_unreserved signal index _).bind fun _ _ => .ok _)
  exact (each _ _).bind fun _ _ => (each _ _).bind fun _ _ => (each _ _).bind fun _ _ => .ok _

theorem decomposeAll_unreserved (tokens : List Token) : Unreserved (decomposeAll tokens) := by
  refine (decompose_unreserved tokens 0).bind fun body _ => ?_
  split
  · exact .refuse trivial
  · exact .ok _

theorem decomposeMessage_unreserved (tokens : List Token) :
    Unreserved (decomposeMessage tokens) := by
  refine .bind ?_ fun inner _ => decomposeAll_unreserved inner
  cases tokens with
  | nil => exact .refuse trivial
  | cons first rest => exact .ite (.ok _) (.refuse trivial)

theorem encodingAt_unreserved (tokens : List Token) (offset limit : Nat) :
    Unreserved (encodingAt tokens offset limit) := by
  unfold encodingAt
  split
  · exact .ite (.ok _) (.refuse trivial)
  · exact .refuse trivial
  · exact .fault

theorem groupLayout_unreserved (index : Nat) (token : Token) (inner rest : List Token) :
    Unreserved (groupLayout index token inner rest) := by
  cases rest with
  | nil => exact .fault
  | cons dimensions others =>
    refine .ite (.refuse trivial) ((closedSpan_unreserved _ _ _).bind fun _ _ => ?_)
    refine .ite (.refuse trivial) ?_
    refine (encodingAt_unreserved _ _ _).bind
      fun _ _ => (encodingAt_unreserved _ _ _).bind fun _ _ => ?_
    exact (decomposeAll_unreserved _).bind fun _ _ => .ok _

theorem Scans.unreserved {α : Type} {opening : Signal}
    {lay : Nat → Token → List Token → List Token → Result α}
    {scan : Nat → List Token → Result (List α)} (scans : Scans opening lay scan)
    (each : ∀ index token inner rest, Unreserved (lay index token inner rest)) (index : Nat)
    (tokens : List Token) : Unreserved (scan index tokens) := by
  induction index, tokens using scan_induct with
  | nil index =>
    rw [scans.nil]
    exact .ok _
  | cons index token rest ih =>
    rw [scans.cons]
    refine .ite (.refuse trivial) ((closedSpan_unreserved _ _ _).bind fun parts split => ?_)
    refine (each _ _ _ _).bind fun _ _ => ?_
    exact (ih _ parts.2 (closedSpan_length split).2).bind fun _ _ => .ok _

theorem splitFields_unreserved (index : Nat) (tokens : List Token) :
    Unreserved (splitFields index tokens) :=
  scans_splitFields.unreserved (fun _ _ _ _ => .ok _) index tokens

theorem splitGroups_unreserved (index : Nat) (tokens : List Token) :
    Unreserved (splitGroups index tokens) :=
  scans_splitGroups.unreserved groupLayout_unreserved index tokens

theorem splitVarData_unreserved (index : Nat) (tokens : List Token) :
    Unreserved (splitVarData index tokens) := by
  refine scans_splitVarData.unreserved (fun _ _ _ _ => ?_) index tokens
  exact (encodingAt_unreserved _ _ _).bind
    fun _ _ => (encodingAt_unreserved _ _ _).bind fun _ _ => .ok _

end Layout

namespace Source

/-! ### What emitters compute without names -/

theorem headerPrimitive_unreserved (schema : Schema) (field : HeaderField) :
    Unreserved (schema.headerPrimitive field) :=
  (Unreserved.ofOption (by trivial) _).bind fun token _ => token.primitive_unreserved

theorem ofField_unreserved (layout : FieldLayout) : Unreserved (Property.ofField layout) := by
  unfold Property.ofField
  split
  · exact .refuse trivial
  · exact .ok _

theorem members_unreserved (index : Nat) (tokens : List Token) :
    Unreserved (members index tokens) := by
  fun_induction members index tokens with
  | case1 => exact .ok _
  | case2 => exact .fault
  | case3 index token rest _ _ _ ih => exact ih.bind fun _ _ => .ok _

end Source

/-! ### Computations that a token eases -/

/-- There is a token, and it is not empty. -/
def Appends (token : Option String) : Prop := ∃ text, token = some text ∧ text ≠ ""

/-- A computation under settings that has the same outcome with a token as without one, unless it
refuses a reserved word without one. With a token that appends something it refuses no word. -/
structure Eases {α : Type} (make : Settings → Result α) : Prop where
  same (settings : Settings) (token : Option String) : make (settings.withToken token) =
      make (settings.withToken none) ∨
    Appends token ∧ ∃ name, make (settings.withToken none) = .error (.refused (.reservedWord name))
  unreserved (settings : Settings) (token : Option String) :
    Appends token → Unreserved (make (settings.withToken token))

namespace Eases

variable {α β : Type}

/-- Where names do not come in. -/
theorem of_unreserved {result : Result α} (unreserved : Unreserved result) :
    Eases fun _ => result :=
  ⟨fun _ _ => .inl rfl, fun _ _ _ => unreserved⟩

/-- Where the token does not come in. -/
theorem pure {make : Settings → α}
    (same : ∀ (settings : Settings) token, make (settings.withToken token) = make settings) :
    Eases fun settings => (Pure.pure (make settings) : Result α) :=
  ⟨fun settings token => .inl (by rw [same, same]), fun _ _ _ => .ok _⟩

theorem bind {first : Settings → Result α} {next : Settings → α → Result β} (eases : Eases first)
    (later : ∀ value, Eases fun settings => next settings value) :
    Eases fun settings => first settings >>= next settings where
  same settings token := by
    rcases eases.same settings token with same | ⟨appends, name, refused⟩
    · rw [same]
      cases first (settings.withToken none) with
      | error halt => exact .inl rfl
      | ok value => exact (later value).same settings token
    · refine .inr ⟨appends, name, ?_⟩
      rw [refused]
      rfl
  unreserved settings token appends :=
    (eases.unreserved settings token appends).bind fun value _ =>
      (later value).unreserved settings token appends

end Eases

namespace Settings

open Name

/-- The test of names: a token does something for reserved words alone. -/
theorem escape_eases (formatted name : String) :
    Eases fun settings => settings.escape formatted name where
  same settings token := by
    unfold escape withToken
    cases isReserved formatted with
    | false => exact .inl rfl
    | true =>
      match token with
      | none => exact .inl rfl
      | some text =>
        by_cases empty : text = ""
        · subst empty
          exact .inl rfl
        · exact .inr ⟨⟨text, rfl, empty⟩, name, rfl⟩
  unreserved settings token := by
    rintro ⟨text, rfl, filled⟩
    unfold escape withToken
    refine .ite ?_ (.ok _)
    dsimp only
    rw [if_neg (by simpa using filled)]
    exact .ok _

end Settings

theorem SchemaError.IsPlain.remains {cause : SchemaError} (plain : cause.IsPlain) :
    cause.Remains := by
  cases cause with
  | reservedWord => exact plain
  | _ => trivial

theorem Eases.closed : Closed Eases where
  pure same := .pure same
  refuse plain := .of_unreserved (.refuse plain.remains)
  name := Settings.escape_eases
  bind := .bind

namespace Source

theorem headerPrimitive_eases (schema : Schema) (field : HeaderField) :
    Eases fun _ => schema.headerPrimitive field :=
  .of_unreserved (headerPrimitive_unreserved schema field)

theorem parts_eases (body : Body) : Parts Eases body where
  fields := .of_unreserved (Layout.splitFields_unreserved _ _)
  typed _ _ layout _ := .of_unreserved (ofField_unreserved layout)
  groups := .of_unreserved (Layout.splitGroups_unreserved _ _)
  varData := .of_unreserved (Layout.splitVarData_unreserved _ _)

theorem messageUnit_eases (schema : Schema) (header : String) (first : Token) (tokens : List Token)
    (side : Side) : Eases fun settings => messageUnit settings schema header first tokens side := by
  refine messageUnit_closed Eases.closed (headerPrimitive_eases schema)
    (.of_unreserved (Layout.decomposeMessage_unreserved _)) side (fun body path _ => ?_) header
    first
  exact ⟨parts_eases body, groupTypes_closed Eases.closed (fun body (_ : True) => parts_eases body)
    (fun _ _ _ _ _ _ => trivial) trivial path side⟩

end Source

-- Names are compared as they stand, without going through the table of reserved words.
seal Name.isReserved

/-! ### Runs -/

namespace Plan

/-- Where no unit can be planned, the cause is not a reserved word. -/
def Purpose.Plannable : Purpose → Prop
  | nothing cause => cause.Remains
  | _ => True

theorem Purpose.code_eases (schema : Schema) {purpose : Purpose} (plannable : purpose.Plannable) :
    Eases fun settings => purpose.code settings schema := by
  cases purpose with
  | enumeration first tokens => exact Source.enumUnit_closed Eases.closed first tokens
  | bitSet first tokens side =>
    exact Source.setUnit_closed Eases.closed (Source.headerPrimitive_eases schema) first tokens side
  | composite first tokens side =>
    exact Source.compositeUnit_closed Eases.closed (Source.headerPrimitive_eases schema)
      (.of_unreserved (Source.members_unreserved _ _)) first side
  | message header first tokens side =>
    exact Source.messageUnit_eases schema header first tokens side
  | nothing cause => exact .of_unreserved (.refuse plannable)

theorem Purpose.plannable_of_mem {schema : Schema} :
    ∀ purpose ∈ schema.purposes, purpose.Plannable := by
  have types (tokens : List Token) : ∀ purpose ∈ ofType tokens, purpose.Plannable := by
    cases tokens with
    | nil => exact List.forall_mem_singleton.mpr trivial
    | cons first rest =>
      rw [ofType]
      split
      · exact List.forall_mem_singleton.mpr trivial
      · exact List.forall_mem_map.mpr fun _ _ => trivial
      · exact List.forall_mem_map.mpr fun _ _ => trivial
      · exact List.forall_mem_singleton.mpr trivial
  have messages (header : String) (tokens : List Token) :
      ∀ purpose ∈ ofMessage header tokens, purpose.Plannable := by
    cases tokens with
    | nil => exact List.forall_mem_singleton.mpr trivial
    | cons first rest => exact List.forall_mem_map.mpr fun _ _ => trivial
  exact Schema.forall_purposes (fun _ => trivial) (fun _ _ _ _ => trivial)
    (fun tokens _ => types tokens) fun first _ _ tokens _ => messages first.typeName tokens

variable {schema : Schema} {purposes : List Purpose}
  (each : ∀ purpose ∈ purposes, Eases fun settings => purpose.code settings schema)
  (settings : Settings) (token : Option String)

include each

/-- A run with a token is the one without, unless that one ends with a reserved word. -/
theorem run_withToken :
    run (purposes.map (Purpose.step (settings.withToken token) schema)) =
        run (purposes.map (Purpose.step (settings.withToken none) schema)) ∨
      Appends token ∧
        ∃ name, (run (purposes.map (Purpose.step (settings.withToken none) schema))).ending =
        some (.refused (.reservedWord name)) := by
  induction purposes with
  | nil => exact .inl rfl
  | cons purpose rest ih =>
    obtain ⟨first, later⟩ := List.forall_mem_cons.mp each
    simp only [List.map_cons, run_cons]
    rcases first.same settings token with same | ⟨appends, name, refused⟩
    · rw [same]
      cases purpose.code (settings.withToken none) schema with
      | error halt => exact .inl rfl
      | ok code =>
        rcases ih later with same | reserved
        · rw [same]
          exact .inl rfl
        · exact .inr reserved
    · refine .inr ⟨appends, name, ?_⟩
      rw [refused]

/-- A run with a token that appends something ends with no reserved word. -/
theorem run_unreserved (appends : Appends token) (name : String) :
    (run (purposes.map (Purpose.step (settings.withToken token) schema))).ending ≠
      some (.refused (.reservedWord name)) := by
  induction purposes with
  | nil =>
    intro ended
    cases ended
  | cons purpose rest ih =>
    obtain ⟨first, later⟩ := List.forall_mem_cons.mp each
    rw [List.map_cons, run_cons]
    have unreserved := first.unreserved settings token appends
    cases made : purpose.code (settings.withToken token) schema with
    | ok code => exact ih later
    | error halt =>
      intro ended
      cases ended
      exact unreserved (.reservedWord name) made

end Plan

namespace Schema

open Plan

/-- **The token for reserved words is conservative.** A run to its end without a token is the same
with any token. A run with a token that is not empty ends with no reserved word. An empty token is
as good as none. -/
theorem generate_token_conservative (schema : Schema) (settings : Settings) :
    (∀ token, (schema.generate { settings with keywordAppendToken := none }).ending = none →
      schema.generate { settings with keywordAppendToken := token } =
        schema.generate { settings with keywordAppendToken := none }) ∧
    (∀ text name, text ≠ "" →
      (schema.generate { settings with keywordAppendToken := some text }).ending ≠
        some (.refused (.reservedWord name))) ∧
    schema.generate { settings with keywordAppendToken := some "" } =
      schema.generate { settings with keywordAppendToken := none } := by
  have each : ∀ purpose ∈ schema.purposes, Eases fun settings => purpose.code settings schema :=
    fun purpose member => Purpose.code_eases schema (Purpose.plannable_of_mem purpose member)
  simp only [generate, ofSchema_eq]
  refine ⟨fun token ended => ?_, fun text name filled => ?_, ?_⟩
  · rcases run_withToken each settings token with same | ⟨_, name, reserved⟩
    · exact same
    · exact absurd (ended.symm.trans reserved) (by simp)
  · exact run_unreserved each settings (some text) ⟨text, rfl, filled⟩ name
  · rcases run_withToken each settings (some "") with same | ⟨⟨text, same, filled⟩, _⟩
    · exact same
    · cases same
      exact absurd rfl filled

/-- A schema with a field of a given name, inside a group. -/
def customs (field : String) : Schema where
  packageName := "customs"
  id := 41
  header := Build.messageHeader
  messages := [Build.message "Declaration" 1 4
    [Build.field "office" 1 0 [Build.value "office" 0 (.of .uint32)],
      Build.group "goods" 2 0 2 Build.groupSize
        [Build.field field 3 0 [Build.value field 0 (.of .uint16)]]]]

theorem customs_token_conservative :
    ((customs "kind").generate { keywordAppendToken := none }).ending = none ∧
      (customs "kind").generate { keywordAppendToken := some "_" } =
        (customs "kind").generate { keywordAppendToken := none } ∧
      ((customs "type").generate { keywordAppendToken := none }).ending =
        some (.refused (.reservedWord "type")) ∧
      ((customs "type").generate { keywordAppendToken := some "_" }).ending ≠
        some (.refused (.reservedWord "type")) := by
  have ended : ((customs "kind").generate { keywordAppendToken := none }).ending = none := by
    decide +kernel
  have reserved : ((customs "type").generate { keywordAppendToken := none }).ending =
      some (.refused (.reservedWord "type")) := by decide +kernel
  exact ⟨ended, (generate_token_conservative (customs "kind") {}).1 (some "_") ended, reserved,
    (generate_token_conservative (customs "type") {}).2.1 "_" "type" (by decide)⟩

end Schema

end Sbe
