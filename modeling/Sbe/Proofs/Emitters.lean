import Sbe.Plan
import Sbe.Proofs.Accepted

/-!
**What emitters are made of.**

Every emitter looks at tokens, tests names and refuses what does not fit. So a property of
computations under settings that holds of each of these, and of one computation after another, holds
of all emitters. Where an emitter takes the tokens apart first, that must have the property as well.

* `Closed`: properties of this kind;
* `Source.accessors_closed`, `Source.bodyMembers_closed`, `Source.groupTypes_closed`: emitters of
  parts of units;
* `Source.enumUnit_closed`, `Source.setUnit_closed`, `Source.compositeUnit_closed`,
  `Source.messageUnit_closed`: emitters of units.
-/

namespace Sbe

/-- Settings with another token for reserved words. -/
def Settings.withToken (settings : Settings) (token : Option String) : Settings :=
  { settings with keywordAppendToken := token }

/-- The causes that lie in what a schema says in one place, names apart. -/
def SchemaError.IsPlain : SchemaError → Prop
  | .unsupportedPrimitive .. | .missingPrimitive .. | .missingConstant .. | .unsupportedCharset ..
  | .outOfRange .. | .choiceBit .. => True
  | .misplaced expected _ _ => expected = .encoding
  | _ => False

/-- A property of computations under settings that holds of values where the token for reserved
words does not come in, of refusals, of the test of names, and of one computation after another. -/
structure Closed (P : ∀ {α : Type}, (Settings → Result α) → Prop) : Prop where
  pure : ∀ {α : Type} {make : Settings → α},
    (∀ settings token, make (settings.withToken token) = make settings) →
      P fun settings => (Pure.pure (make settings) : Result α)
  refuse : ∀ {α : Type} {cause : SchemaError}, cause.IsPlain →
    P fun _ => (Outcome.refuse cause : Result α)
  name : ∀ formatted name : String, P fun settings => settings.escape formatted name
  bind : ∀ {α β : Type} {first : Settings → Result α} {next : Settings → α → Result β},
    P first → (∀ value, P fun settings => next settings value) →
      P fun settings => first settings >>= next settings

variable {P : ∀ {α : Type}, (Settings → Result α) → Prop}

theorem Closed.ite {α : Type} {condition : Prop} [Decidable condition]
    {yes no : Settings → Result α} (one : P yes) (two : P no) :
    P fun settings => if condition then yes settings else no settings := by
  split
  · exact one
  · exact two

variable (closed : Closed P)
include closed

namespace Closed

variable {α β : Type}

theorem ok (value : α) : P fun _ => (Pure.pure value : Result α) := closed.pure fun _ _ => rfl

theorem ofOption {cause : SchemaError} (plain : cause.IsPlain) (option : Option α) :
    P fun _ => Outcome.ofOption cause option := by
  cases option with
  | none => exact closed.refuse plain
  | some value => exact closed.ok value

/-- After a computation where settings do not come in, which has given its value. -/
theorem bind_same {result : Result α} {next : Settings → α → Result β} (one : P fun _ => result)
    (two : ∀ value, result = .ok value → P fun settings => next settings value) :
    P fun settings => result >>= next settings := by
  cases result with
  | ok value => exact two value rfl
  | error halt =>
    have other : P fun _ => (Outcome.refuse (.missingConstant "") : Result β) :=
      closed.refuse trivial
    have failed := closed.bind one fun _ => other
    exact failed

theorem mapM {work : Settings → α → Result β} {items : List α}
    (each : ∀ item ∈ items, P fun settings => work settings item) :
    P fun settings => items.mapM (work settings) := by
  induction items with
  | nil => exact closed.ok []
  | cons item rest ih =>
    obtain ⟨first, later⟩ := List.forall_mem_cons.mp each
    simp only [List.mapM_cons]
    exact closed.bind first fun _ => closed.bind (ih later) fun _ => closed.ok _

theorem propertyName (name : String) : P fun settings => settings.propertyName name :=
  closed.name _ _

theorem typeName (name : String) : P fun settings => settings.typeName name := closed.name _ _

end Closed

seal Name.isReserved

theorem Token.primitive_closed (token : Token) : P fun _ => token.primitive :=
  closed.ofOption (by trivial) _

namespace Source

theorem literal_closed (primitive : Primitive) (value : Scalar) (name : String) :
    P fun _ => literal primitive value name := closed.ofOption (by trivial) _

theorem charset_closed (token : Token) : P fun _ => charset token := by
  unfold charset
  exact closed.ofOption (by trivial) _

/-! ### Properties -/

theorem propertyConstants_closed (property : Property) :
    P fun settings => propertyConstants settings property := by
  unfold propertyConstants
  dsimp only
  split
  · exact closed.ok _
  · exact closed.bind (closed.propertyName _) fun _ => closed.ok _

theorem arrayAccessors_closed (property : Property) (primitive : Primitive) (accessor : String)
    (side : Side) (guarded : Bool) :
    P fun _ => arrayAccessors property primitive accessor side guarded := by
  unfold arrayAccessors
  dsimp only
  split
  · exact closed.ok _
  · exact closed.bind (charset_closed closed _) fun _ => closed.ok _

theorem constantText_closed (property : Property) (value accessor : String) (side : Side) :
    P fun _ => constantText property value accessor side := by
  refine closed.bind (charset_closed closed _) fun set => ?_
  dsimp only
  split
  · exact closed.refuse trivial
  · cases side with
    | decoder => exact closed.ok _
    | encoder => exact closed.ok _

theorem constantAccessors_closed (property : Property) (primitive : Primitive) (side : Side) :
    P fun settings => constantAccessors settings property primitive side := by
  refine closed.bind (closed.propertyName _) fun accessor => ?_
  refine closed.bind (closed.ofOption (by trivial) _) fun value => ?_
  dsimp only
  split
  · exact constantText_closed closed _ _ _ _
  · exact closed.bind (literal_closed closed _ _ _) fun _ => closed.ok _

theorem primitiveAccessors_closed (property : Property) (side : Side) (scope : Scope) :
    P fun settings => primitiveAccessors settings property side scope := by
  refine closed.bind (Token.primitive_closed closed _) fun primitive => ?_
  refine Closed.ite (constantAccessors_closed closed _ _ _) ?_
  refine closed.bind (closed.propertyName _) fun accessor => ?_
  refine closed.bind (literal_closed closed _ _ _) fun null => ?_
  refine closed.bind (literal_closed closed _ _ _) fun least => ?_
  refine closed.bind (literal_closed closed _ _ _) fun greatest => ?_
  refine Closed.ite ?_ (closed.ok _)
  exact closed.bind (arrayAccessors_closed closed _ _ _ _ _) fun _ => closed.ok _

theorem constantVariant_closed (property : Property) :
    P fun settings => constantVariant settings property := by
  refine closed.bind (closed.ofOption (by trivial) _) fun value => ?_
  exact closed.bind (closed.ofOption (by trivial) _) fun variant => closed.typeName variant

theorem enumAccessors_closed (property : Property) (side : Side) (scope : Scope) :
    P fun settings => enumAccessors settings property side scope := by
  refine closed.bind (closed.propertyName _) fun accessor => ?_
  refine closed.bind (closed.typeName _) fun enumName => ?_
  refine Closed.ite ?_
    (closed.bind (Token.primitive_closed closed _) fun primitive => closed.pure fun _ _ => rfl)
  cases side with
  | decoder => exact closed.bind (constantVariant_closed closed property) fun _ => closed.ok _
  | encoder => exact closed.ok _

theorem viewAccessors_closed (property : Property) (side : Side) (scope : Scope) :
    P fun settings => viewAccessors settings property side scope :=
  closed.bind (closed.propertyName _) fun _ => closed.ok _

theorem accessors_closed (side : Side) (scope : Scope) (property : Property) :
    P fun settings => accessors settings side scope property := by
  refine closed.bind (propertyConstants_closed closed property) fun constants => ?_
  dsimp only
  split
  · exact closed.bind (primitiveAccessors_closed closed _ _ _) fun _ => closed.ok _
  · exact closed.bind (enumAccessors_closed closed _ _ _) fun _ => closed.ok _
  · exact closed.bind (viewAccessors_closed closed _ _ _) fun _ => closed.ok _
  · exact closed.bind (viewAccessors_closed closed _ _ _) fun _ => closed.ok _
  · exact closed.refuse rfl

theorem varDataAccessors_closed (side : Side) (layout : VarDataLayout) :
    P fun settings => varDataAccessors settings side layout := by
  refine closed.bind (closed.propertyName _) fun accessor => ?_
  refine closed.bind (Token.primitive_closed closed _) fun length => ?_
  simp only [Outcome.refuse_bind]
  refine Closed.ite (closed.refuse trivial) ?_
  split
  · simp only [map_eq_pure_bind, bind_assoc, pure_bind]
    exact closed.bind (charset_closed closed _) fun _ => closed.ok _
  · exact closed.ok _

/-! ### Functions that show codecs -/

theorem propertyEntry_closed (scope : Scope) (property : Property) :
    P fun settings => propertyEntry settings scope property :=
  Closed.ite (closed.bind (closed.propertyName _) fun _ => closed.pure fun _ _ => rfl) (closed.ok _)

theorem compositeRender_closed (properties : List Property) :
    P fun settings => compositeRender settings properties :=
  closed.bind (closed.mapM fun property _ => propertyEntry_closed closed .composite property)
    fun _ => closed.ok _

theorem bodyRender_closed (fields : List Property) (groups : List GroupLayout)
    (varData : List VarDataLayout) :
    P fun settings => bodyRender settings fields groups varData := by
  refine closed.bind (closed.mapM fun property _ => propertyEntry_closed closed .body property)
    fun fieldEntries => ?_
  refine closed.bind (closed.mapM fun layout _ => ?_) fun groupEntries => ?_
  · exact closed.bind (closed.propertyName _) fun _ => closed.ok _
  refine closed.bind (closed.mapM fun layout _ => ?_) fun varDataEntries => closed.ok _
  exact closed.bind (closed.propertyName _) fun _ => closed.ok _

/-! ### Enums, sets and composites -/

theorem enumUnit_closed (first : Token) (tokens : List Token) :
    P fun settings => enumUnit settings first tokens := by
  refine closed.bind (closed.typeName _) fun name => ?_
  refine closed.bind (Token.primitive_closed closed _) fun primitive => ?_
  simp only [Outcome.refuse_bind]
  refine Closed.ite (closed.refuse trivial)
    (closed.bind (literal_closed closed _ _ _) fun null => ?_)
  refine closed.bind (closed.mapM fun token _ => ?_) fun values => closed.pure fun _ _ => rfl
  refine closed.bind (closed.ofOption (by trivial) _) fun constant => ?_
  refine closed.bind (closed.typeName _) fun variant => ?_
  exact closed.bind (literal_closed closed _ _ _) fun _ => closed.ok _

theorem choice_closed (primitive : Primitive) (token : Token) :
    P fun settings => choice settings primitive token := by
  refine closed.bind (closed.ofOption (by trivial) _) fun bit => ?_
  simp only [Outcome.refuse_bind]
  refine Closed.ite (closed.refuse trivial) ?_
  exact closed.bind (closed.propertyName _) fun _ => closed.ok _

section

variable {schema : Schema} (header : ∀ field, P fun _ => schema.headerPrimitive field)
include header

theorem schemaConstants_closed : P fun _ => schemaConstants schema := by
  refine closed.bind (header _) fun _ => closed.bind (header _) fun _ => ?_
  exact closed.bind (literal_closed closed _ _ _) fun _ =>
    closed.bind (literal_closed closed _ _ _) fun _ => closed.ok _

theorem headerTypes_closed : P fun _ => headerTypes schema :=
  closed.bind (header _) fun _ => closed.bind (header _) fun _ => closed.bind (header _) fun _ =>
    closed.ok _

theorem setUnit_closed (first : Token) (tokens : List Token) (side : Side) :
    P fun settings => setUnit settings schema first tokens side := by
  refine closed.bind (Token.primitive_closed closed _) fun primitive => ?_
  simp only [Outcome.refuse_bind]
  refine Closed.ite (closed.refuse trivial) ?_
  refine closed.bind (closed.mapM fun token _ => choice_closed closed primitive token)
    fun choices => ?_
  exact closed.bind (schemaConstants_closed closed header) fun _ => closed.pure fun _ _ => rfl

theorem compositeUnit_closed {tokens : List Token} (taken : P fun _ => members 0 (inner tokens))
    (first : Token) (side : Side) :
    P fun settings => compositeUnit settings schema first tokens side := by
  refine closed.bind taken fun properties => ?_
  refine closed.bind (schemaConstants_closed closed header) fun schemaLines => ?_
  refine closed.bind
    (closed.mapM fun property _ => accessors_closed closed side .composite property)
    fun functions => ?_
  cases side with
  | decoder =>
    exact closed.bind (compositeRender_closed closed properties) fun _ => closed.pure fun _ _ => rfl
  | encoder => exact closed.pure fun _ _ => rfl

end

/-! ### Bodies, groups and messages -/

theorem groupAccessors_closed (path : String) (side : Side) (layout : GroupLayout) :
    P fun settings => groupAccessors settings path side layout := by
  refine closed.bind (closed.propertyName _) fun accessor => ?_
  cases side with
  | decoder => exact closed.ok _
  | encoder => exact closed.bind (Token.primitive_closed closed _) fun _ => closed.ok _

/-- What must hold of taking a body apart. -/
structure Parts (P : ∀ {α : Type}, (Settings → Result α) → Prop) (body : Body) : Prop where
  fields : P fun _ => Layout.splitFields 0 body.fields
  typed : ∀ layouts, Layout.splitFields 0 body.fields = .ok layouts → ∀ layout ∈ layouts,
    P fun _ => Property.ofField layout
  groups : P fun _ => Layout.splitGroups 0 body.groups
  varData : P fun _ => Layout.splitVarData 0 body.varData

theorem bodyMembers_closed {body : Body} (parts : Parts P body) (path : String) (side : Side) :
    P fun settings => bodyMembers settings body path side := by
  refine closed.bind_same parts.fields fun layouts found => ?_
  refine closed.bind (closed.mapM fun layout member => ?_) fun fields => ?_
  · refine closed.bind (parts.typed layouts found layout member) fun property => ?_
    exact closed.bind (accessors_closed closed side .body property) fun _ => closed.ok _
  refine closed.bind parts.groups fun groups => ?_
  refine closed.bind (closed.mapM fun layout _ => groupAccessors_closed closed path side layout)
    fun groupCode => ?_
  refine closed.bind parts.varData fun varData => ?_
  refine closed.bind (closed.mapM fun layout _ => varDataAccessors_closed closed side layout)
    fun varDataCode => ?_
  cases side with
  | decoder => exact closed.bind (bodyRender_closed closed _ groups varData) fun _ => closed.ok _
  | encoder => exact closed.ok _

theorem groupType_closed {layout : GroupLayout} (parts : Parts P layout.body) (path : String)
    (side : Side) : P fun settings => groupType settings layout path side := by
  refine closed.bind (Token.primitive_closed closed _) fun blockLength => ?_
  refine closed.bind (Token.primitive_closed closed _) fun numInGroup => ?_
  refine closed.bind (literal_closed closed _ _ _) fun length => ?_
  have members := bodyMembers_closed closed parts (groupPath path layout.group) side
  have number (value : Scalar) (name : String) := literal_closed closed numInGroup value name
  cases side with
  | decoder => exact closed.bind (closed.ok _) fun _ => closed.bind members fun _ => closed.ok _
  | encoder =>
    refine closed.bind (closed.bind (number _ _) fun _ => closed.bind (number _ _) fun _ =>
      closed.ok _) fun opening => ?_
    exact closed.bind members fun _ => closed.ok _

omit closed in
/-- The types of all groups of a body, from the groups of its run. -/
theorem groupTypes_eq (settings : Settings) (body : Body) (path : String) (side : Side) :
    groupTypes settings body path side = (do
      let layouts ← Layout.splitGroups 0 body.groups
      let types ← layouts.mapM fun layout => do
        let type ← groupType settings layout path side
        let nested ← groupTypes settings layout.body (groupPath path layout.group) side
        pure (type ++ nested)
      pure types.flatten) := by
  rw [groupTypes]
  refine (Outcome.bind_eq_of_map (Layout.splitGroups_eq_groups body) fun sized _ => ?_).symm
  rw [List.mapM_map]
  rfl

/-- The types of groups, at every depth: what holds of a body must hold of the groups in it. -/
theorem groupTypes_closed {Inside : Body → Prop} (parts : ∀ body, Inside body → Parts P body)
    (nested : ∀ body layouts, Inside body → Layout.splitGroups 0 body.groups = .ok layouts →
      ∀ layout ∈ layouts, Inside layout.body) {body : Body} (inside : Inside body) (path : String)
    (side : Side) : P fun settings => groupTypes settings body path side := by
  induction size : body.size using Nat.strongRecOn generalizing body path with
  | ind total ih =>
    simp only [groupTypes_eq _ body]
    refine closed.bind_same (parts body inside).groups fun layouts found => ?_
    refine closed.bind (closed.mapM fun layout member => ?_) fun types => closed.ok _
    have deeper := nested body layouts inside found layout member
    have small := Layout.size_lt_of_mem_splitGroups found member
    have wide : body.groups.length ≤ body.size := by
      unfold Body.size
      omega
    refine closed.bind (groupType_closed closed (parts _ deeper) path side) fun type => ?_
    exact closed.bind (ih layout.body.size (by omega) deeper _ rfl) fun _ => closed.ok _

theorem messageUnit_closed {schema : Schema}
    (headerFields : ∀ field, P fun _ => schema.headerPrimitive field) {tokens : List Token}
    (decomposed : P fun _ => Layout.decomposeMessage tokens) (side : Side)
    (inside : ∀ body path, Layout.decomposeMessage tokens = .ok body → Parts P body ∧
      P fun settings => groupTypes settings body path side) (header : String) (first : Token) :
    P fun settings => messageUnit settings schema header first tokens side := by
  refine closed.bind_same decomposed fun body found => ?_
  obtain ⟨parts, groups⟩ := inside body (Name.codecName first.name "") found
  refine closed.bind (headerTypes_closed closed headerFields) fun types => ?_
  refine closed.bind (literal_closed closed _ _ _) fun blockLength => ?_
  refine closed.bind (literal_closed closed _ _ _) fun templateId => ?_
  refine closed.bind (schemaConstants_closed closed headerFields) fun schemaLines => ?_
  refine closed.bind (bodyMembers_closed closed parts _ side) fun members => ?_
  exact closed.bind groups fun _ => closed.pure fun _ _ => rfl

end Source

end Sbe
