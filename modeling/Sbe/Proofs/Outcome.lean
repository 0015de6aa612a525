import Mathlib.Data.List.Forall2
import Sbe.Outcome

/-!
**Sequences of outcomes.**

A sequence of computations ends with a value exactly when each of them does.

* `bind_eq_ok_iff`: one computation after another;
* `mapM_eq_ok_iff`: a value for each element of a list;
* `forM_eq_ok_iff`: a test of each element of a list;
* `Answers`: computations that do not fault;
* `Yields`: computations whose values meet a condition;
* `Alike`: two computations that end in the same way.
-/

namespace Sbe

/-- A condition that goes through values and sequences goes through the work for each element of a
list. -/
theorem mapM_of_closed {m : Type → Type} [Monad m] [LawfulMonad m]
    (closed : ∀ α : Type, m α → Prop) (pure : ∀ {α : Type} (value : α), closed α (pure value))
    (bind : ∀ {α β : Type} {first : m α} {next : α → m β}, closed α first → (∀ value, closed β
      (next value)) → closed β (first >>= next)) {ι : Type _} {β : Type} {work : ι → m β}
    {items : List ι} (each : ∀ item ∈ items, closed β (work item)) :
    closed (List β) (items.mapM work) := by
  induction items with
  | nil => exact pure []
  | cons item rest ih =>
    obtain ⟨first, later⟩ := List.forall_mem_cons.mp each
    rw [List.mapM_cons]
    exact bind first fun value => bind (ih later) fun values => pure (value :: values)

namespace Outcome

variable {ε α β : Type}

@[simp] theorem ok_bind (value : α) (next : α → Outcome ε β) :
    (Except.ok value >>= next : Outcome ε β) = next value := rfl

@[simp] theorem error_bind (halt : Halt ε) (next : α → Outcome ε β) :
    (Except.error halt >>= next : Outcome ε β) = .error halt := rfl

@[simp] theorem pure_eq_ok (value : α) : (pure value : Outcome ε α) = .ok value := rfl

@[simp] theorem refuse_bind (cause : ε) (next : α → Outcome ε β) :
    (refuse cause >>= next : Outcome ε β) = refuse cause := rfl

@[simp] theorem refuse_ne_ok (cause : ε) (value : α) :
    (refuse cause : Outcome ε α) ≠ .ok value := by
  intro same
  cases same

@[simp] theorem fault_ne_ok (value : α) : (fault : Outcome ε α) ≠ .ok value := by
  intro same
  cases same

theorem ofOption_map (cause : ε) (image : α → β) (option : Option α) :
    (ofOption cause (option.map image) : Outcome ε β) = (ofOption cause option).map image := by
  cases option with
  | none => rfl
  | some value => rfl

/-- What follows a value or its absence, where it depends on an image of the value alone. -/
theorem ofOption_bind_congr {γ : Type} {cause : ε} {image : α → γ} {option other : Option α}
    (same : option.map image = other.map image) {next : α → Outcome ε β}
    (each : ∀ value twin, image value = image twin → next value = next twin) :
    (ofOption cause option >>= next) = (ofOption cause other >>= next) := by
  cases option with
  | none =>
    cases other with
    | none => rfl
    | some => cases same
  | some value =>
    cases other with
    | none => cases same
    | some twin => exact each value twin (Option.some.inj same)

theorem ofOption_eq_ok_iff {cause : ε} {option : Option α} {value : α} :
    (Outcome.ofOption cause option : Outcome ε α) = .ok value ↔ option = some value := by
  cases option <;> simp [Outcome.ofOption]

theorem eq_ok_of_mem_toOption {outcome : Outcome ε α} {value : α}
    (found : value ∈ outcome.toOption) : outcome = .ok value := by
  cases outcome with
  | error halt => cases found
  | ok other =>
    cases found
    rfl

theorem exists_eq_ok_of_isOk {outcome : Outcome ε α} (passed : outcome.isOk = true) :
    ∃ value, outcome = .ok value := by
  cases outcome with
  | error halt => cases passed
  | ok value => exact ⟨value, rfl⟩

/-- A test that is passed has no other value than the one there is. -/
theorem eq_ok_of_isOk {result : Outcome ε Unit} (passed : result.isOk = true) :
    result = .ok () := by
  cases result with
  | error halt => cases passed
  | ok => rfl

/-- A test that refuses leaves what comes after it, where it is passed. -/
theorem ite_refuse_eq_ok_iff {refused : Prop} [Decidable refused] {cause : ε} {next : Outcome ε α}
    {value : α} :
    (if refused then refuse cause else next) = .ok value ↔ ¬ refused ∧ next = .ok value := by
  by_cases held : refused
  · rw [if_pos held]
    simp [held]
  · rw [if_neg held]
    simp [held]

/-- One computation after another has a value exactly when both have. -/
theorem bind_eq_ok_iff {first : Outcome ε α} {next : α → Outcome ε β} {value : β} :
    first >>= next = .ok value ↔ ∃ middle, first = .ok middle ∧ next middle = .ok value := by
  cases first with
  | error halt => simp
  | ok middle => simp

/-- One computation after another ends without a value where one of them does. -/
theorem bind_eq_error_iff {first : Outcome ε α} {next : α → Outcome ε β} {halt : Halt ε} :
    first >>= next = .error halt ↔
      first = .error halt ∨ ∃ middle, first = .ok middle ∧ next middle = .error halt := by
  cases first with
  | error other => simp
  | ok middle => simp

/-- Where a computation and what comes after it can be changed before or after, so can both
together. -/
theorem bind_eq_map {γ δ : Type} {first : Outcome ε α} {other : Outcome ε γ} {image : α → γ}
    {next : α → Outcome ε β} {later : γ → Outcome ε δ} {final : β → δ}
    (made : other = first.map image)
    (each : ∀ value, first = .ok value → later (image value) = (next value).map final) :
    other >>= later = (first >>= next).map final := by
  subst made
  cases first with
  | error halt => rfl
  | ok value => exact each value rfl

/-- A change of the first value that what comes after does not see. -/
theorem bind_eq_of_map {γ : Type} {first : Outcome ε α} {other : Outcome ε γ} {image : α → γ}
    {next : α → Outcome ε β} {later : γ → Outcome ε β} (made : other = first.map image)
    (each : ∀ value, first = .ok value → later (image value) = next value) :
    other >>= later = first >>= next := by
  subst made
  cases first with
  | error halt => rfl
  | ok value => exact each value rfl

/-- A computation that has a value for each element has the list of them. -/
theorem mapM_eq_ok {work : α → Outcome ε β} {image : α → β} {items : List α}
    (each : ∀ item ∈ items, work item = .ok (image item)) :
    items.mapM work = .ok (items.map image) := by
  induction items with
  | nil => rfl
  | cons item rest ih =>
    have later := ih fun other member => each other (List.mem_cons_of_mem item member)
    rw [List.mapM_cons, each item List.mem_cons_self, later]
    rfl

/-- Where the value of a computation is known in advance, a list of values is had exactly when each
of them is. -/
theorem mapM_eq_ok_iff {work : α → Outcome ε β} {image : α → β}
    (known : ∀ item value, work item = .ok value → value = image item) {items : List α}
    {values : List β} : items.mapM work = .ok values ↔
      (∀ item ∈ items, work item = .ok (image item)) ∧ values = items.map image := by
  constructor
  · intro done
    have each : ∀ item ∈ items, work item = .ok (image item) := by
      induction items generalizing values with
      | nil =>
        intro item member
        cases member
      | cons item rest ih =>
        rw [List.mapM_cons] at done
        obtain ⟨value, first, done⟩ := bind_eq_ok_iff.mp done
        obtain ⟨later, others, _⟩ := bind_eq_ok_iff.mp done
        rw [List.forall_mem_cons]
        refine ⟨?_, ih others⟩
        rw [first, known item value first]
    rw [mapM_eq_ok each] at done
    cases done
    exact ⟨each, rfl⟩
  · rintro ⟨each, rfl⟩
    exact mapM_eq_ok each

/-- A change of the elements that the computation for each of them does not see. -/
theorem mapM_map_eq {γ : Type} {work : α → Outcome ε β} {other : γ → Outcome ε β} {image : α → γ}
    {items : List α} (each : ∀ item ∈ items, other (image item) = work item) :
    (items.map image).mapM other = items.mapM work := by
  induction items with
  | nil => rfl
  | cons item rest ih =>
    obtain ⟨first, later⟩ := List.forall_mem_cons.mp each
    rw [List.map_cons, List.mapM_cons, List.mapM_cons, first, ih later]

/-- A list of values is not had where the first element without a value ends the computation. -/
theorem mapM_eq_error_iff {work : α → Outcome ε β} {items : List α} {halt : Halt ε} :
    items.mapM work = .error halt ↔ ∃ before item after, items = before ++ item :: after ∧
      (∀ earlier ∈ before, ∃ value, work earlier = .ok value) ∧ work item = .error halt := by
  induction items with
  | nil => simp
  | cons first rest ih =>
    rw [List.mapM_cons, bind_eq_error_iff]
    constructor
    · rintro (failed | ⟨value, done, failed⟩)
      · exact ⟨[], first, rest, rfl, by simp, failed⟩
      · rcases bind_eq_error_iff.mp failed with failed | ⟨_, _, ended⟩
        · obtain ⟨before, item, after, rfl, earlier, failed⟩ := ih.mp failed
          exact ⟨first :: before, item, after, rfl,
            List.forall_mem_cons.mpr ⟨⟨value, done⟩, earlier⟩, failed⟩
        · cases ended
    · rintro ⟨before, item, after, split, earlier, failed⟩
      cases before with
      | nil =>
        cases split
        exact .inl failed
      | cons other before =>
        cases split
        obtain ⟨⟨value, done⟩, earlier⟩ := List.forall_mem_cons.mp earlier
        refine .inr ⟨value, done, ?_⟩
        rw [ih.mpr ⟨before, item, after, rfl, earlier, failed⟩]
        rfl

/-- A list passes a test exactly when each of its elements does. -/
theorem forM_eq_ok_iff {work : α → Outcome ε Unit} {items : List α} {done : Unit} :
    items.forM work = .ok done ↔ ∀ item ∈ items, work item = .ok () := by
  induction items with
  | nil =>
    constructor
    · intro _ item member
      cases member
    · intro _
      rfl
  | cons item rest ih =>
    have unfolded : (item :: rest).forM work = work item >>= fun _ => rest.forM work := rfl
    rw [unfolded, bind_eq_ok_iff, List.forall_mem_cons, ← ih]
    constructor
    · rintro ⟨_, passed, later⟩
      exact ⟨passed, later⟩
    · rintro ⟨passed, later⟩
      exact ⟨(), passed, later⟩

/-! ### Computations that do not fault -/

/-- A computation that ends with a refusal, or with a value of which a condition holds. -/
def Answers (result : Outcome ε α) (holds : α → Prop) : Prop :=
  match result with
  | .ok value => holds value
  | .error (.refused _) => True
  | .error .fault => False

namespace Answers

variable {holds : α → Prop}

theorem ne_fault {result : Outcome ε α} (answers : Answers result holds) :
    result ≠ .error .fault := by
  intro faulted
  rw [faulted] at answers
  exact answers

theorem of_ne_fault {result : Outcome ε α} (answers : result ≠ .error .fault)
    (value : ∀ value, result = .ok value → holds value) : Answers result holds := by
  match result with
  | .ok done => exact value done rfl
  | .error (.refused _) => trivial
  | .error .fault => exact answers rfl

theorem refuse (cause : ε) : Answers (Outcome.refuse cause : Outcome ε α) holds := trivial

theorem ofOption (cause : ε) {option : Option α} (inside : ∀ value ∈ option, holds value) :
    Answers (Outcome.ofOption cause option) holds := by
  cases option with
  | none => exact refuse cause
  | some value => exact inside value rfl

theorem mono {wider : α → Prop} {result : Outcome ε α} (answers : Answers result holds)
    (implies : ∀ value, holds value → wider value) : Answers result wider := by
  match result with
  | .ok value => exact implies value answers
  | .error (.refused _) => trivial

theorem bind {meets : β → Prop} {first : Outcome ε α} {next : α → Outcome ε β}
    (one : Answers first holds) (two : ∀ value, holds value → Answers (next value) meets) :
    Answers (first >>= next) meets := by
  match first with
  | .ok value => exact two value one
  | .error (.refused cause) => exact refuse cause

/-- Where what comes after does not fault, only the first computation can. -/
theorem bind_eq_fault_iff {first : Outcome ε α} {next : α → Outcome ε β}
    (later : ∀ value, first = .ok value → Answers (next value) fun _ => True) :
    first >>= next = .error .fault ↔ first = .error .fault := by
  rw [bind_eq_error_iff]
  refine or_iff_left ?_
  rintro ⟨value, done, faulted⟩
  exact (later value done).ne_fault faulted

theorem ite {condition : Prop} [Decidable condition] {yes no : Outcome ε α}
    (one : Answers yes holds) (two : Answers no holds) :
    Answers (if condition then yes else no) holds := by
  split
  · exact one
  · exact two

theorem forM {work : α → Outcome ε Unit} {items : List α}
    (each : ∀ item ∈ items, Answers (work item) fun _ => True) :
    Answers (items.forM work) fun _ => True := by
  induction items with
  | nil => trivial
  | cons item rest ih =>
    obtain ⟨first, later⟩ := List.forall_mem_cons.mp each
    exact first.bind fun _ _ => ih later

end Answers

/-! ### Computations whose values meet a condition -/

/-- A computation of whose value, if it has one, a condition holds. -/
def Yields (result : Outcome ε α) (holds : α → Prop) : Prop :=
  ∀ value, result = .ok value → holds value

namespace Yields

variable {holds : α → Prop}

theorem any (result : Outcome ε α) : Yields result fun _ => True := fun _ _ => trivial

theorem pure {value : α} (held : holds value) : Yields (Pure.pure value : Outcome ε α) holds := by
  intro other same
  cases same
  exact held

theorem refuse (cause : ε) : Yields (Outcome.refuse cause : Outcome ε α) holds := by
  intro value same
  cases same

theorem ofOption (cause : ε) {option : Option α} (inside : ∀ value ∈ option, holds value) :
    Yields (Outcome.ofOption cause option) holds := by
  cases option with
  | none => exact refuse cause
  | some value => exact pure (inside value rfl)

theorem mono {wider : α → Prop} {result : Outcome ε α} (yields : Yields result holds)
    (implies : ∀ value, holds value → wider value) : Yields result wider :=
  fun value done => implies value (yields value done)

theorem and {also : α → Prop} {result : Outcome ε α} (one : Yields result holds)
    (two : Yields result also) : Yields result fun value => holds value ∧ also value :=
  fun value done => ⟨one value done, two value done⟩

theorem bind {meets : β → Prop} {first : Outcome ε α} {next : α → Outcome ε β}
    (one : Yields first holds) (two : ∀ value, holds value → Yields (next value) meets) :
    Yields (first >>= next) meets := by
  intro value done
  obtain ⟨middle, found, done⟩ := bind_eq_ok_iff.mp done
  exact two middle (one middle found) value done

theorem mapM {work : α → Outcome ε β} {relation : α → β → Prop} {items : List α}
    (each : ∀ item ∈ items, Yields (work item) (relation item)) :
    Yields (items.mapM work) (List.Forall₂ relation items) := by
  induction items with
  | nil => exact pure .nil
  | cons item rest ih =>
    obtain ⟨first, later⟩ := List.forall_mem_cons.mp each
    rw [List.mapM_cons]
    exact first.bind fun _ one => (ih later).bind fun _ others => pure (.cons one others)

theorem forall_mapM {work : α → Outcome ε β} {holds : β → Prop} {items : List α}
    (each : ∀ item ∈ items, Yields (work item) holds) :
    Yields (items.mapM work) fun values => ∀ value ∈ values, holds value := by
  refine (mapM each).mono fun values related => ?_
  induction related with
  | nil => simp
  | cons one _ ih =>
    exact List.forall_mem_cons.mpr ⟨one, ih fun item member => each item (.tail _ member)⟩

end Yields

/-! ### Computations that end alike -/

/-- Two computations that both end with values, which are in a relation, or without one for the same
reason. -/
def Alike (relation : α → β → Prop) (first : Outcome ε α) (second : Outcome ε β) : Prop :=
  match first, second with
  | .ok value, .ok other => relation value other
  | .error halt, .error other => halt = other
  | _, _ => False

namespace Alike

variable {γ δ : Type} {relation : α → β → Prop} {first : Outcome ε α} {second : Outcome ε β}

theorem refl {relation : α → α → Prop} (same : ∀ value, relation value value)
    (result : Outcome ε α) : Alike relation result result := by
  cases result with
  | error halt => exact (rfl : halt = halt)
  | ok value => exact same value

theorem pure {value : α} {other : β} (related : relation value other) :
    Alike relation (Pure.pure value : Outcome ε α) (Pure.pure other : Outcome ε β) := related

theorem mono {wider : α → β → Prop} (alike : Alike relation first second)
    (implies : ∀ value other, relation value other → wider value other) :
    Alike wider first second := by
  match first, second with
  | .ok value, .ok other => exact implies value other alike
  | .error _, .error _ => exact alike

theorem bind {final : γ → δ → Prop} {next : α → Outcome ε γ} {after : β → Outcome ε δ}
    (alike : Alike relation first second)
    (later : ∀ value other, relation value other → Alike final (next value) (after other)) :
    Alike final (first >>= next) (second >>= after) := by
  match first, second with
  | .ok value, .ok other => exact later value other alike
  | .error _, .error _ => exact alike

/-- After one and the same computation. -/
theorem bind_same {final : γ → δ → Prop} (result : Outcome ε α) {next : α → Outcome ε γ}
    {after : α → Outcome ε δ} (later : ∀ value, Alike final (next value) (after value)) :
    Alike final (result >>= next) (result >>= after) := by
  cases result with
  | error halt => exact (rfl : halt = halt)
  | ok value => exact later value

theorem of_eq {relation : α → α → Prop} (each : ∀ value, relation value value)
    {first second : Outcome ε α} (same : second = first) : Alike relation first second := by
  rw [same]
  exact refl each first

/-- After a computation, and after one that ends with the image of its value. -/
theorem bind_map {final : γ → δ → Prop} {image : α → β} (made : second = first.map image)
    {next : α → Outcome ε γ} {after : β → Outcome ε δ}
    (later : ∀ value, first = .ok value → Alike final (next value) (after (image value))) :
    Alike final (first >>= next) (second >>= after) := by
  cases first with
  | error halt =>
    rw [made]
    exact (rfl : halt = halt)
  | ok value =>
    rw [made]
    exact later value rfl

theorem mapM {work : γ → Outcome ε α} {other : γ → Outcome ε β} {items : List γ}
    (each : ∀ item ∈ items, Alike relation (work item) (other item)) :
    Alike (List.Forall₂ relation) (items.mapM work) (items.mapM other) := by
  induction items with
  | nil => exact List.Forall₂.nil
  | cons item rest ih =>
    obtain ⟨one, later⟩ := List.forall_mem_cons.mp each
    rw [List.mapM_cons, List.mapM_cons]
    exact one.bind fun _ _ related => (ih later).bind fun _ _ others => pure (.cons related others)

/-- For each item of a list, and for the image of each. -/
theorem mapM_map {image : γ → δ} {work : γ → Outcome ε α} {other : δ → Outcome ε β} {items : List γ}
    (each : ∀ item ∈ items, Alike relation (work item) (other (image item))) :
    Alike (List.Forall₂ relation) (items.mapM work) ((items.map image).mapM other) := by
  rw [List.mapM_map]
  exact mapM each

/-- Equal under a condition, for each element and so for the list. -/
theorem mapM_if {condition : Prop} {work other : γ → Outcome ε α} {items : List γ}
    (each : ∀ item ∈ items, Alike (fun value twin =>
      condition → value = twin) (work item) (other item)) :
    Alike (fun values twins => condition → values = twins) (items.mapM work)
      (items.mapM other) := by
  refine (mapM each).mono fun values twins related holds => ?_
  rw [← List.forall₂_eq_eq_eq]
  exact related.imp fun _ _ same => same holds

end Alike

end Outcome

end Sbe
