import Sbe.Proofs.Partition
import Sbe.Proofs.ScalarKinds
import Sbe.Proofs.Scans
import Sbe.Source.Enumeration
import Sbe.Source.Property

/-!
**Constant enums and the kinds of their values.**

The variant of a constant enum is found by its value, with the kind of the value. That kind decides
nothing where the constant is not one number, in two kinds, with a value of its own enum.

* `Source.Property.Settled`, `Schema.VariantsSettled`: the constant enums where the kind decides
  nothing;
* `subset_of_mem_splitFields`, `subset_of_mem_splitGroups`, `subset_of_mem_members`: where the
  tokens of fields, groups and members come from;
* `Schema.variantsSettled_of_kindsSettled`: a check of all pairs of tokens of each stream is enough.
-/

namespace Sbe

namespace Source

/-- The constant of a constant enum is one number with none of its values, in two kinds. -/
def Property.Settled (property : Property) : Prop :=
  property.first.signal = .beginEnum → property.isConstant →
    ∀ token ∈ property.first :: property.others, token.signal = .validValue →
      ∀ constant ∈ token.encoding.constant, ∀ value ∈ property.constant?, constant.clashes value =
        false

/-- A property is one of the fields of a body or of a group in it, at any depth. -/
inductive Declares : Body → Property → Prop
  | field {body : Body} {layouts : List FieldLayout} {layout : FieldLayout} {property : Property} :
      Layout.splitFields 0 body.fields = .ok layouts → layout ∈ layouts →
      Property.ofField layout = .ok property → Declares body property
  | group {body : Body} {layouts : List GroupLayout} {layout : GroupLayout} {property : Property} :
      Layout.splitGroups 0 body.groups = .ok layouts → layout ∈ layouts →
      Declares layout.body property → Declares body property

/-- Every member of a composite is settled. -/
def MembersSettled (tokens : List Token) : Prop :=
  ∀ properties, members 0 (inner tokens) = .ok properties →
    ∀ property ∈ properties, property.Settled

/-- Every field of a message is settled, at every depth. -/
def FieldsSettled (tokens : List Token) : Prop :=
  ∀ body, Layout.decomposeMessage tokens = .ok body →
    ∀ property, Declares body property → property.Settled

end Source

/-- No constant enum of a schema depends on a kind. -/
structure Schema.VariantsSettled (schema : Schema) : Prop where
  header : Source.MembersSettled schema.header
  types : ∀ tokens ∈ schema.types, Source.MembersSettled tokens
  messages : ∀ tokens ∈ schema.messages, Source.FieldsSettled tokens

namespace Layout

/-! ### Where the tokens of elements come from -/

theorem closedSpan_subset {index : Nat} {token : Token} {rest : List Token}
    {parts : List Token × List Token} (split : closedSpan index token rest = .ok parts) :
    parts.1 ⊆ rest ∧ parts.2 ⊆ rest := by
  unfold closedSpan at split
  cases closes : token.signal.closing? with
  | none => simp [closes] at split
  | some closing =>
    rw [closes] at split
    obtain ⟨⟨element, after⟩, opened, split⟩ := Outcome.bind_eq_ok_iff.mp split
    obtain ⟨⟨long, _⟩, _, rfl, rfl⟩ := splitSpan_eq_ok_iff.mp opened
    obtain ⟨count, size⟩ := Nat.exists_eq_add_of_le' long
    dsimp only at split
    split at split
    · cases split
      rw [size, List.take_succ_cons, List.tail_cons, List.drop_succ_cons]
      exact ⟨List.Subset.trans (List.dropLast_subset _) (List.take_subset _ _),
        List.drop_subset _ _⟩
    · cases split

theorem decomposeAll_subset {tokens : List Token} {body : Body}
    (found : decomposeAll tokens = .ok body) : body.fields ⊆ tokens ∧ body.groups ⊆ tokens := by
  obtain ⟨whole, parts, found⟩ := Outcome.bind_eq_ok_iff.mp found
  have runs := (decompose_append parts).2.2
  have same : whole = body := by
    split at found
    · cases found
    · exact Except.ok.inj found
  rw [same, List.drop_zero] at runs
  rw [← runs]
  constructor
  · simp
  · simp

theorem decomposeMessage_subset {tokens : List Token} {body : Body}
    (found : decomposeMessage tokens = .ok body) : body.fields ⊆ tokens ∧ body.groups ⊆ tokens := by
  obtain ⟨inner, opened, found⟩ := Outcome.bind_eq_ok_iff.mp found
  obtain ⟨fields, groups⟩ := decomposeAll_subset found
  cases tokens with
  | nil => cases opened
  | cons first rest =>
    have inside : inner ⊆ first :: rest := by
      unfold messageBody at opened
      dsimp only at opened
      split at opened
      · cases opened
        exact List.subset_cons_of_subset _ (List.dropLast_subset _)
      · cases opened
    exact ⟨List.Subset.trans fields inside, List.Subset.trans groups inside⟩

theorem groupLayout_subset {index : Nat} {token : Token} {inner rest : List Token}
    {layout : GroupLayout} (found : groupLayout index token inner rest = .ok layout) :
    layout.body.fields ⊆ inner ∧ layout.body.groups ⊆ inner := by
  cases rest with
  | nil => cases found
  | cons dimensions others =>
    unfold groupLayout at found
    dsimp only at found
    split at found
    · cases found
    · obtain ⟨parts, _, found⟩ := Outcome.bind_eq_ok_iff.mp found
      split at found
      · cases found
      · obtain ⟨_, _, found⟩ := Outcome.bind_eq_ok_iff.mp found
        obtain ⟨_, _, found⟩ := Outcome.bind_eq_ok_iff.mp found
        obtain ⟨body, decomposed, found⟩ := Outcome.bind_eq_ok_iff.mp found
        cases found
        obtain ⟨fields, groups⟩ := decomposeAll_subset decomposed
        exact ⟨List.Subset.trans fields (List.drop_subset _ _),
          List.Subset.trans groups (List.drop_subset _ _)⟩

/-- What a scan lays out comes from tokens of its run. -/
theorem Scans.exists_of_mem {α : Type} {opening : Signal}
    {lay : Nat → Token → List Token → List Token → Result α}
    {scan : Nat → List Token → Result (List α)} (scans : Scans opening lay scan) {index : Nat}
    {tokens : List Token} {layouts : List α} (found : scan index tokens = .ok layouts) :
    ∀ layout ∈ layouts, ∃ place token inner rest, token.signal = opening ∧ token ∈ tokens ∧
      inner ⊆ tokens ∧ lay place token inner rest = .ok layout := by
  induction index, tokens using scan_induct generalizing layouts with
  | nil index =>
    rw [scans.nil] at found
    cases found
    intro layout member
    cases member
  | cons index token rest ih =>
    rw [scans.cons, Outcome.ite_refuse_eq_ok_iff, Decidable.not_not] at found
    obtain ⟨opens, found⟩ := found
    obtain ⟨parts, split, found⟩ := Outcome.bind_eq_ok_iff.mp found
    obtain ⟨first, made, found⟩ := Outcome.bind_eq_ok_iff.mp found
    obtain ⟨others, later, found⟩ := Outcome.bind_eq_ok_iff.mp found
    cases found
    obtain ⟨inside, after⟩ := closedSpan_subset split
    refine List.forall_mem_cons.mpr ⟨?_, fun layout member => ?_⟩
    · exact ⟨index, token, parts.1, rest, opens, List.mem_cons_self,
        List.subset_cons_of_subset _ inside, made⟩
    · obtain ⟨place, opened, inner, behind, signal, known, span, laid⟩ :=
        ih _ parts.2 (closedSpan_length split).2 later layout member
      exact ⟨place, opened, inner, behind, signal, List.mem_cons_of_mem _ (after known),
        List.subset_cons_of_subset _ (List.Subset.trans span after), laid⟩

/-- The tokens of a field stand in its run. -/
theorem subset_of_mem_splitFields {index : Nat} {tokens : List Token} {layouts : List FieldLayout}
    (found : splitFields index tokens = .ok layouts) : ∀ layout ∈ layouts,
      layout.field.signal = .beginField ∧ layout.field ∈ tokens ∧ layout.type ⊆ tokens := by
  intro layout member
  obtain ⟨_, token, inner, _, opens, known, inside, made⟩ :=
    scans_splitFields.exists_of_mem found layout member
  cases made
  exact ⟨opens, known, inside⟩

/-- The body of a group stands in the run of its group. -/
theorem subset_of_mem_splitGroups {index : Nat} {tokens : List Token} {layouts : List GroupLayout}
    (found : splitGroups index tokens = .ok layouts) : ∀ layout ∈ layouts,
      layout.body.fields ⊆ tokens ∧ layout.body.groups ⊆ tokens := by
  intro layout member
  obtain ⟨_, _, _, _, _, _, inside, made⟩ := scans_splitGroups.exists_of_mem found layout member
  obtain ⟨fields, groups⟩ := groupLayout_subset made
  exact ⟨List.Subset.trans fields inside, List.Subset.trans groups inside⟩

end Layout

namespace Source

theorem subset_of_mem_members {index : Nat} {tokens : List Token} {properties : List Property}
    (found : members index tokens = .ok properties) : ∀ property ∈ properties,
      property.field = none ∧ property.first :: property.others ⊆ tokens := by
  induction index, tokens using Layout.scan_induct generalizing properties with
  | nil index =>
    rw [members] at found
    cases found
    intro property member
    cases member
  | cons index token rest ih =>
    rw [members] at found
    dsimp only at found
    generalize (if token.signal.isBegin then max token.span 1 else 1) = span at found
    split at found
    · cases found
    · obtain ⟨later, taken, found⟩ := Outcome.bind_eq_ok_iff.mp found
      cases found
      have short : (rest.drop (span - 1)).length ≤ rest.length := by
        rw [List.length_drop]
        omega
      refine List.forall_mem_cons.mpr ⟨⟨rfl, List.cons_subset_cons _ (List.take_subset _ _)⟩, ?_⟩
      intro property member
      obtain ⟨field, inside⟩ := ih _ _ short taken property member
      exact ⟨field, List.subset_cons_of_subset _ (List.Subset.trans inside (List.drop_subset _ _))⟩

end Source

/-! ### A check of streams -/

/-- No constant of an enum or a field is one number with a value of an enum, in two kinds. -/
def KindsSettled (tokens : List Token) : Prop :=
  ∀ value ∈ tokens, value.signal = .validValue → ∀ constant ∈ value.encoding.constant,
    ∀ fixed ∈ tokens, fixed.signal = .beginField ∨ fixed.signal = .beginEnum →
      ∀ other ∈ fixed.encoding.constant, constant.clashes other = false

instance (tokens : List Token) : Decidable (KindsSettled tokens) :=
  inferInstanceAs (Decidable (∀ value ∈ tokens, value.signal = .validValue →
    ∀ constant ∈ value.encoding.constant, ∀ fixed ∈ tokens,
      fixed.signal = .beginField ∨ fixed.signal = .beginEnum →
        ∀ other ∈ fixed.encoding.constant, constant.clashes other = false))

/-- The check of every stream of a schema. -/
def Schema.KindsSettled (schema : Schema) : Prop :=
  ∀ tokens ∈ schema.header :: (schema.types ++ schema.messages), Sbe.KindsSettled tokens

instance (schema : Schema) : Decidable schema.KindsSettled :=
  inferInstanceAs (Decidable
    (∀ tokens ∈ schema.header :: (schema.types ++ schema.messages), Sbe.KindsSettled tokens))

namespace Source

/-- A property whose tokens stand in a stream. -/
theorem Property.settled_of_subset {tokens : List Token} (settled : KindsSettled tokens)
    {property : Property} (inside : property.first :: property.others ⊆ tokens)
    (field : ∀ token, property.field = some token → token ∈ tokens ∧ token.signal = .beginField) :
    property.Settled := by
  intro opens _ token member signal constant carried value fixed
  rcases Option.or_eq_some_iff.mp fixed with first | ⟨_, later⟩
  · exact settled token (inside member) signal constant carried property.first
      (inside List.mem_cons_self) (.inr opens) value first
  · obtain ⟨opening, found, declared⟩ := Option.bind_eq_some_iff.mp later
    obtain ⟨known, begins⟩ := field opening found
    exact settled token (inside member) signal constant carried opening known (.inl begins) value
      declared

theorem membersSettled_of_kindsSettled {tokens : List Token} (settled : KindsSettled tokens) :
    MembersSettled tokens := by
  intro properties found property member
  obtain ⟨field, known⟩ := subset_of_mem_members found property member
  have inside : inner tokens ⊆ tokens :=
    List.Subset.trans (List.dropLast_subset _) (List.tail_sublist _).subset
  refine property.settled_of_subset settled (List.Subset.trans known inside) fun token present => ?_
  rw [field] at present
  cases present

theorem Declares.settled {body : Body} {property : Property} (declares : Declares body property)
    {tokens : List Token} (settled : KindsSettled tokens) (fields : body.fields ⊆ tokens)
    (groups : body.groups ⊆ tokens) : property.Settled := by
  induction declares with
  | @field body layouts layout property found member made =>
    obtain ⟨opens, known, inside⟩ := Layout.subset_of_mem_splitFields found layout member
    obtain ⟨field, type⟩ := layout
    cases type with
    | nil => cases made
    | cons first others =>
      cases made
      refine Property.settled_of_subset settled (List.Subset.trans inside fields)
        fun token present => ?_
      cases present
      exact ⟨fields known, opens⟩
  | @group body layouts layout property found member _ ih =>
    obtain ⟨inner, nested⟩ := Layout.subset_of_mem_splitGroups found layout member
    exact ih (List.Subset.trans inner groups) (List.Subset.trans nested groups)

theorem fieldsSettled_of_kindsSettled {tokens : List Token} (settled : KindsSettled tokens) :
    FieldsSettled tokens := by
  intro body found property declares
  obtain ⟨fields, groups⟩ := Layout.decomposeMessage_subset found
  exact declares.settled settled fields groups

end Source

theorem Schema.variantsSettled_of_kindsSettled {schema : Schema} (settled : schema.KindsSettled) :
    schema.VariantsSettled where
  header := Source.membersSettled_of_kindsSettled (settled _ List.mem_cons_self)
  types tokens member := Source.membersSettled_of_kindsSettled
    (settled tokens (List.mem_cons_of_mem _ (List.mem_append_left _ member)))
  messages tokens member := Source.fieldsSettled_of_kindsSettled
    (settled tokens (List.mem_cons_of_mem _ (List.mem_append_right _ member)))

end Sbe
