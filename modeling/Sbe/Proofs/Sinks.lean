import Sbe.Proofs.Frame

/-!
**Rendering to a sink, and to a text.**

A rendering is made of reading and of writing pieces, whatever the sink. So its effect on the wire
is that of its reading, also where the sink refuses a piece; and a text, which takes every piece,
gets all of them behind what it held before.

* `Roams`, `Browses`: work that moves the limit and changes nothing else;
* `Draws`: renderings, one for every sink, and `Draws.roams`: what they leave as it was;
* `Spells`, `Draws.spells`: a rendering to a text as work that gives the text;
* `SetView.text_eq`, `CompositeView.text_eq`: the texts of sets and of composites.
-/

namespace Sbe.Codec

variable {σ α β : Type}

/-! ### Work that browses -/

/-- Work on a state with a wire in it, which moves at most the limit, however it ends. -/
def Roams {ε : Type} (wireOf : σ → Wire) (work : ExceptT ε (StateM σ) α) : Prop :=
  ∀ ⦃state outcome after⦄, work.run state = (outcome, after) →
    (wireOf after).buffer = (wireOf state).buffer ∧
      (wireOf after).cursor.version = (wireOf state).cursor.version

theorem Roams.bind {ε : Type} {wireOf : σ → Wire} {first : ExceptT ε (StateM σ) α}
    {next : α → ExceptT ε (StateM σ) β} (one : Roams wireOf first)
    (two : ∀ value, Roams wireOf (next value)) : Roams wireOf (first >>= next) := by
  intro state outcome after ended
  rw [run_bind] at ended
  cases ran : first.run state with
  | mk result middle =>
    rw [ran] at ended
    obtain ⟨buffer, version⟩ := one ran
    cases result with
    | error halt =>
      cases ended
      exact ⟨buffer, version⟩
    | ok value =>
      obtain ⟨sameBuffer, sameVersion⟩ := two value ended
      exact ⟨sameBuffer.trans buffer, sameVersion.trans version⟩

/-- Work that moves the limit and changes nothing else, and is never refused. -/
structure Browses (work : Codec α) : Prop where
  kept : Roams (fun wire => wire) work
  firm : Firm work

theorem Quiet.browses {work : Codec α} (quiet : Quiet work) (firm : Firm work) : Browses work := by
  refine ⟨fun wire outcome after ended => ?_, firm⟩
  have same := quiet wire
  rw [ended] at same
  cases same
  exact ⟨rfl, rfl⟩

namespace Browses

theorem pure (value : α) : Browses (pure value : Codec α) :=
  (Quiet.pure value).browses (.pure value)

theorem limit : Browses limit := Quiet.limit.browses .limit

theorem version : Browses version := by
  refine Quiet.browses (fun _ => rfl) ?_
  intro wire cause after refused
  cases refused

theorem addSize (left right : Nat) : Browses (ofOutcome (Sbe.addSize left right)) :=
  (Quiet.ofOutcome _).browses (.addSize left right)

theorem slice (index length : Nat) : Browses (slice index length) :=
  (Quiet.slice index length).browses (.slice index length)

theorem setLimit (limit : Nat) : Browses (setLimit limit) := by
  refine ⟨fun wire outcome after ended => ?_, .setLimit limit⟩
  cases ended
  exact ⟨rfl, rfl⟩

theorem bind {first : Codec α} {next : α → Codec β} (one : Browses first)
    (two : ∀ value, Browses (next value)) : Browses (first >>= next) :=
  ⟨one.kept.bind fun value => (two value).kept, one.firm.bind fun value => (two value).firm⟩

theorem map {work : Codec α} (browses : Browses work) (image : α → β) :
    Browses (work >>= fun value => Pure.pure (image value)) :=
  browses.bind fun value => pure (image value)

theorem getNumber (primitive : Primitive) (index : Nat) : Browses (getNumber primitive index) :=
  (slice _ _).map _

/-- What is absent from an older message is read in a newer one. -/
theorem known {since : Nat} {absent present : Codec α} (one : Browses absent)
    (two : Browses present) :
    Browses (isOlder since >>= fun older => if older then absent else present) := by
  refine (version.map _).bind fun older => ?_
  split
  · exact one
  · exact two

end Browses

theorem NumberField.read_browses (field : NumberField) (base : Nat) : Browses (field.read base) :=
  .known (.pure _) (.getNumber _ _)

theorem TextField.read_browses (field : TextField) (base : Nat) : Browses (field.read base) :=
  .known (.pure _) ((Browses.slice _ _).map _)

/-! ### Renderings -/

/-- A rendering to every sink, made of reading and of writing pieces. -/
inductive Draws : (∀ σ : Type, Sink σ → Render σ Unit) → Prop where
  | done : Draws fun _ _ => pure ()
  | write (piece : String) : Draws fun _ sink => Render.write sink piece
  | read {α : Type} {reading : Codec α} {next : ∀ σ, Sink σ → α → Render σ Unit}
      (browses : Browses reading) (rest : ∀ value, Draws fun σ sink => next σ sink value) :
      Draws fun σ sink => Render.read reading >>= next σ sink
  | andThen {first second : ∀ σ, Sink σ → Render σ Unit} (one : Draws first) (two : Draws second) :
      Draws fun σ sink => first σ sink >>= fun _ => second σ sink

theorem Render.run_read (reading : Codec α) (wire : Wire) (out : σ) :
    (Render.read reading).run (wire, out) =
      match reading.run wire with
      | (.ok value, after) => (.ok value, after, out)
      | (.error (.refused _), after) => (.error (.refused ()), after, out)
      | (.error .fault, after) => (.error .fault, after, out) := rfl

theorem Browses.read_roams {reading : Codec α} (browses : Browses reading) :
    Roams Prod.fst (Render.read reading : Render σ α) := by
  rintro ⟨wire, out⟩ outcome after ended
  rw [Render.run_read] at ended
  cases ran : reading.run wire with
  | mk result middle =>
    have kept := browses.kept ran
    rw [ran] at ended
    rcases result with (cause | _) | value
    all_goals
      cases ended
      exact kept

/-- Whether a rendering comes to its end, is refused a piece or ends in a fault, it has at most
moved the limit. -/
theorem Draws.roams {work : ∀ σ : Type, Sink σ → Render σ Unit} (draws : Draws work)
    (sink : Sink σ) : Roams Prod.fst (work σ sink) := by
  induction draws with
  | done =>
    intro state outcome after ended
    cases ended
    exact ⟨rfl, rfl⟩
  | write piece =>
    intro state outcome after ended
    cases ended
    exact ⟨rfl, rfl⟩
  | read browses _ ih => exact browses.read_roams.bind fun value => ih value
  | andThen _ _ one two => exact one.bind fun _ => two

/-! ### Rendering to a text -/

namespace Render

variable (work : Render String Unit) (wire : Wire)

theorem run_shown : work.shown.run wire =
    match work.run (wire, "") with
    | (.ok (), after, out) => (.ok (true, out), after)
    | (.error (.refused ()), after, out) => (.ok (false, out), after)
    | (.error .fault, after, _) => (.error .fault, after) := rfl

theorem run_toText : work.toText.run wire =
    match work.run (wire, "") with
    | (.ok (), after, out) => (.ok out, after)
    | (.error _, after, _) => (.error .fault, after) := by
  rw [toText, run_bind, run_shown]
  rcases work.run (wire, "") with ⟨(_ | _) | _, after, out⟩ <;> rfl

/-- Reading first, and rendering what was read. -/
theorem toText_read {reading : Codec α} (firm : Firm reading) (next : α → Render String Unit) :
    (read reading >>= next).toText = (do (next (← reading)).toText) := by
  funext wire
  change (read reading >>= next).toText.run wire = (reading >>= fun value => _).run wire
  rw [run_toText, run_bind, run_bind, run_read]
  cases ran : reading.run wire with
  | mk result middle =>
    rcases result with (cause | _) | value
    · exact absurd ran (firm wire cause middle)
    · rfl
    · exact (run_toText (next value) middle).symm

end Render

/-- A rendering to a text that puts the text which some work gives behind what there is, or ends in
a fault where that work does. -/
def Spells (work : Render String Unit) (text : Codec String) : Prop :=
  ∀ wire out, (∃ shown after, text.run wire = (.ok shown, after) ∧
      work.run (wire, out) = (.ok (), after, out ++ shown)) ∨
    ∃ after left, text.run wire = (.error .fault, after) ∧
      work.run (wire, out) = (.error .fault, after, left)

namespace Spells

theorem done : Spells (pure ()) (pure "") := by
  intro wire out
  refine .inl ⟨"", wire, rfl, ?_⟩
  rw [String.append_empty]
  rfl

theorem write (piece : String) : Spells (Render.write .text piece) (pure piece) :=
  fun wire _ => .inl ⟨piece, wire, rfl, rfl⟩

/-- What follows on reading may go by what was read. -/
theorem read_of_run {reading : Codec α} {next : α → Render String Unit} {text : α → Codec String}
    (firm : Firm reading) (rest : ∀ wire value after, reading.run wire = (.ok value, after) →
      Spells (next value) (text value)) :
    Spells (Render.read reading >>= next) (reading >>= text) := by
  intro wire out
  have reads := Render.run_read reading wire out
  cases ran : reading.run wire with
  | mk result middle =>
    rw [ran] at reads
    rcases result with (cause | _) | value
    · exact absurd ran (firm wire cause middle)
    · rw [run_bind, run_bind, ran, reads]
      exact .inr ⟨middle, out, rfl, rfl⟩
    · rw [run_bind_of_ok ran, run_bind_of_ok reads]
      exact rest wire value middle ran middle out

theorem read {reading : Codec α} {next : α → Render String Unit} {text : α → Codec String}
    (firm : Firm reading) (rest : ∀ value, Spells (next value) (text value)) :
    Spells (Render.read reading >>= next) (reading >>= text) :=
  read_of_run firm fun _ value _ _ => rest value

theorem andThen {first second : Render String Unit} {front back : Codec String}
    (one : Spells first front) (two : Spells second back) :
    Spells (first >>= fun _ => second) (do pure ((← front) ++ (← back))) := by
  intro wire out
  rcases one wire out with ⟨shown, middle, gave, wrote⟩ | ⟨middle, left, gave, wrote⟩
  · rw [run_bind_of_ok gave, run_bind_of_ok wrote]
    rcases two middle (out ++ shown) with ⟨more, after, gave, wrote⟩ | ⟨after, left, gave, wrote⟩
    · rw [run_bind_of_ok gave, wrote, String.append_assoc]
      exact .inl ⟨shown ++ more, after, rfl, rfl⟩
    · rw [run_bind, gave, wrote]
      exact .inr ⟨after, left, rfl, rfl⟩
  · rw [run_bind, run_bind, gave, wrote]
    exact .inr ⟨middle, left, rfl, rfl⟩

/-- A rendering gives the text that it spells. -/
theorem toText_eq {work : Render String Unit} {text : Codec String} (spells : Spells work text) :
    work.toText = text := by
  funext wire
  change work.toText.run wire = text.run wire
  rcases spells wire "" with ⟨shown, after, gave, wrote⟩ | ⟨after, left, gave, wrote⟩
  · rw [gave, Render.run_toText, wrote, String.empty_append]
  · rw [gave, Render.run_toText, wrote]

theorem self {work : Render String Unit} {text : Codec String} (spells : Spells work text) :
    Spells work work.toText :=
  spells.toText_eq ▸ spells

theorem separated (mark : String) {ι : Type} {items : List ι} {each : ι → Render String Unit}
    (spells : ∀ item ∈ items, Spells (each item) (each item).toText) :
    Spells (Render.separated .text mark (items.map each))
      (do pure (String.intercalate mark (← items.mapM fun item => (each item).toText))) := by
  induction items with
  | nil => exact done
  | cons item rest ih =>
    have first := spells item List.mem_cons_self
    have later := ih fun item member => spells item (List.mem_cons_of_mem _ member)
    cases rest with
    | nil =>
      simp only [List.mapM_cons, List.mapM_nil, pure_bind, bind_assoc,
        String.intercalate_singleton, bind_pure]
      exact first
    | cons next rest =>
      have all := first.andThen ((write mark).andThen later)
      simp only [List.mapM_cons, pure_bind, bind_assoc] at all
      simp only [List.mapM_cons, pure_bind, bind_assoc, String.intercalate_cons_cons,
        String.append_assoc]
      exact all

end Spells

/-- Entries of any kinds with a mark between them. -/
theorem Draws.separated {ι : Type _} (mark : String) {items : List ι}
    {each : ∀ σ : Type, Sink σ → ι → Render σ Unit}
    (draws : ∀ item ∈ items, Draws fun σ sink => each σ sink item) :
    Draws fun σ sink => Render.separated sink mark (items.map (each σ sink)) := by
  induction items with
  | nil => exact .done
  | cons item rest ih =>
    have first := draws item List.mem_cons_self
    have later := ih fun item member => draws item (List.mem_cons_of_mem _ member)
    cases rest with
    | nil => exact first
    | cons next rest => exact .andThen first (.andThen (.write mark) later)

theorem Draws.spells {work : ∀ σ : Type, Sink σ → Render σ Unit} (draws : Draws work) :
    Spells (work String .text) (work String .text).toText := by
  induction draws with
  | done => exact Spells.done.self
  | write piece => exact (Spells.write piece).self
  | read browses _ ih => exact (Spells.read browses.firm ih).self
  | andThen _ _ one two => exact (one.andThen two).self

/-! ### Names in a row -/

/-- Texts in a row, with a comma before each but the first of all. -/
def inRow (more : Bool) (texts : List String) : String :=
  if more then String.join (texts.map ("," ++ ·)) else String.intercalate "," texts

theorem inRow_nil (more : Bool) : inRow more [] = "" := by cases more <;> rfl

theorem inRow_cons (more : Bool) (text : String) (rest : List String) :
    inRow more (text :: rest) = (if more then "," else "") ++ (text ++ inRow true rest) := by
  cases more with
  | true => simp [inRow, String.append_assoc]
  | false =>
    rw [if_neg Bool.false_ne_true, String.empty_append]
    induction rest generalizing text with
    | nil => simp [inRow]
    | cons next rest ih =>
      have later := ih next
      simp only [inRow, Bool.false_eq_true, if_false] at later ⊢
      rw [String.intercalate_cons_cons, later]
      simp [String.append_assoc]

/-! ### Sets -/

namespace SetView

variable (view : SetView)

theorem raw_browses : Browses view.raw := .getNumber _ _

theorem renderChoices_draws (more : Bool) (choices : List (String × Nat)) :
    Draws fun _ sink => view.renderChoices sink more choices := by
  induction choices generalizing more with
  | nil => exact .done
  | cons choice rest ih =>
    refine .read view.raw_browses fun raw => ?_
    split
    · cases more with
      | true => exact .andThen (.write ",") (.andThen (.write choice.1) (ih true))
      | false => exact .andThen (.write choice.1) (ih true)
    · exact ih more

theorem render_draws : Draws fun _ sink => view.render sink :=
  .andThen (.write _) (.andThen (view.renderChoices_draws false _) (.write _))

/-- The names of the choices among some that are set. -/
def chosen (raw : Nat) (choices : List (String × Nat)) : List String :=
  (choices.filter fun choice => SetType.test raw choice.2).map Prod.fst

theorem run_renderChoices {view : SetView} {wire : Wire} {raw : Nat}
    (found : view.raw.run wire = (.ok raw, wire)) (more : Bool) (choices : List (String × Nat))
    (out : String) :
    (view.renderChoices .text more choices).run (wire, out) =
      (.ok (), wire, out ++ inRow more (chosen raw choices)) := by
  induction choices generalizing more out with
  | nil =>
    rw [chosen, List.filter_nil, List.map_nil, inRow_nil, String.append_empty]
    rfl
  | cons choice rest ih =>
    have reads : (Render.read view.raw).run (wire, out) = (.ok raw, wire, out) := by
      rw [Render.run_read, found]
    have wrote (piece out : String) :
        (Render.write .text piece).run (wire, out) = (.ok (), wire, out ++ piece) := rfl
    rw [renderChoices, run_bind_of_ok reads, chosen, List.filter_cons]
    split
    · rw [List.map_cons, inRow_cons]
      cases more with
      | true =>
        refine (run_bind_of_ok (wrote "," out)).trans ?_
        refine (run_bind_of_ok (wrote choice.1 _)).trans ?_
        rw [ih, chosen]
        simp [String.append_assoc]
      | false =>
        refine (run_bind_of_ok (wrote choice.1 _)).trans ?_
        rw [ih, chosen]
        simp [String.append_assoc]
    · exact ih more out

theorem renderChoices_spells (more : Bool) (choices : List (String × Nat)) :
    Spells (view.renderChoices .text more choices)
      (if choices = [] then pure "" else do pure (inRow more (chosen (← view.raw) choices))) := by
  cases choices with
  | nil => exact .done
  | cons choice rest =>
    intro wire out
    have same : (view.raw.run wire).2 = wire := Quiet.map (Quiet.slice _ _) _ wire
    rw [if_neg (List.cons_ne_nil _ _)]
    cases found : view.raw.run wire with
    | mk result after =>
      obtain rfl : wire = after := (congrArg Prod.snd found).symm.trans same |>.symm
      rcases result with (cause | _) | raw
      · exact absurd found (view.raw_browses.firm wire cause wire)
      · refine .inr ⟨wire, out, ?_, ?_⟩
        · rw [run_bind, found]
        · rw [renderChoices, run_bind, Render.run_read, found]
      · refine .inl ⟨_, wire, ?_, run_renderChoices found more _ out⟩
        rw [run_bind_of_ok found]
        rfl

/-- The text of a set. A set without choices is shown without a look at its bytes. -/
theorem text_eq : view.text =
    (if view.type.choices = [] then pure (view.type.text 0)
    else do pure (view.type.text (← view.raw))) := by
  have spells := (Spells.write "\x7b").andThen
    ((view.renderChoices_spells false view.type.choices).andThen (Spells.write "\x7d"))
  refine spells.toText_eq.trans ?_
  simp only [pure_bind]
  split
  · next none =>
    rw [pure_bind, pure_bind, SetType.text, none]
    rfl
  · simp only [bind_assoc, pure_bind, SetType.text, inRow, chosen, String.append_assoc]
    rfl

end SetView

/-! ### Composites -/

namespace CompositeView

variable (view : CompositeView)

theorem renderPart_draws (part : Part) : Draws fun _ sink => view.renderPart sink part := by
  cases part with
  | number field => exact .andThen (.write _) (.read (field.read_browses _) fun _ => .write _)
  | text field => exact .andThen (.write _) (.read (field.read_browses _) fun _ => .write _)
  | constantNumber | constantText => exact .done

theorem render_draws : Draws fun _ sink => view.render sink :=
  .andThen (.write _) (.andThen (.separated "|" fun part _ => view.renderPart_draws part)
    (.write _))

/-- The entry of a part. -/
def entry (part : Part) : Codec String := (view.renderPart .text part).toText

theorem entry_number (field : NumberField) : view.entry (.number field) =
    (do pure (field.name ++ "=" ++ field.primitive.shown (← field.read view.offset))) := by
  refine ((Spells.write _).andThen
    (.read (field.read_browses _).firm fun _ => .write _)).toText_eq.trans ?_
  simp only [pure_bind, bind_assoc]

theorem entry_text (field : TextField) : view.entry (.text field) =
    (do pure (field.name ++ "=" ++ (← field.read view.offset))) := by
  refine ((Spells.write _).andThen
    (.read (field.read_browses _).firm fun _ => .write _)).toText_eq.trans ?_
  simp only [pure_bind, bind_assoc]

/-- The text of a composite is made of the entries of its parts. -/
theorem text_eq : view.text = (do
    let entries ← (view.type.parts.filter Part.isShown).mapM view.entry
    pure ("(" ++ String.intercalate "|" entries ++ ")")) := by
  have entries := Spells.separated "|" fun part (_ : part ∈ view.type.parts.filter Part.isShown) =>
    (view.renderPart_draws part).spells
  refine ((Spells.write _).andThen (entries.andThen (.write _))).toText_eq.trans ?_
  simp only [pure_bind, bind_assoc, String.append_assoc]
  rfl

end CompositeView

end Sbe.Codec
