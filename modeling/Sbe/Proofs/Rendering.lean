import Sbe.Proofs.Confinement
import Sbe.Proofs.Session

/-!
**Showing a message cannot be observed.**

To show a message, all of it is read from the end of its block on, with the limit that it shares
with everything else. The limit is put back, so that a message can be shown in the middle of being
read; it is put back too where a sink refuses a piece of the text. Where the limit stood before does
not matter to the text, nor to whether there is one.

* `renderBody_draws`: rendering a body, with the groups in it;
* `bodyText_eq`, `groupEntry_eq`: the text of a body and of a group;
* `MessageView.run_render`: what the rendering of a message depends on, and what it leaves;
* `MessageView.text_unobservable`: showing a message.
-/

namespace Sbe.Codec

variable {σ α : Type}

/-! ### Members and fields of variable length -/

theorem ArrayField.readAt_browses (field : ArrayField) (base : Nat) {index : Nat}
    (inside : index < field.length) : Browses (field.readAt base index) := by
  rw [ArrayField.readAt, ArrayField.testIndex, if_pos inside]
  exact (Browses.pure ()).bind fun _ => .known (.pure _) (.getNumber _ _)

theorem EnumField.readRaw_browses (field : EnumField) (base : Nat) : Browses (field.readRaw base) :=
  .known (.pure _) (.getNumber _ _)

theorem viewAt_browses (place : Nat → α) (since offset base : Nat) :
    Browses (viewAt place since offset base) :=
  .known (.pure _) (((Browses.addSize _ _).map _).map _)

theorem Member.renderValue_draws (member : Member) (base : Nat) :
    Draws fun _ sink => member.renderValue sink base := by
  cases member with
  | number field => exact .read (field.read_browses base) fun _ => .write _
  | array field =>
    refine .andThen (.write _) (.andThen (.separated "," fun index member => ?_) (.write _))
    exact .read (field.readAt_browses base (List.mem_range.mp member)) fun _ => .write _
  | text field => exact .read (field.read_browses base) fun _ => .write _
  | enumeration field =>
    refine .read (field.readRaw_browses base) fun raw => ?_
    -- A pattern of no variant is shown as it is, so it does not stop the text.
    split
    · exact .write _
    · exact .write _
  | constantEnum => exact .done
  | bitSet field =>
    refine .read (viewAt_browses _ _ _ base) fun view? => ?_
    cases view? with
    | none => exact .done
    | some view => exact view.render_draws
  | composite field =>
    refine .read (viewAt_browses _ _ _ base) fun view? => ?_
    cases view? with
    | none => exact .done
    | some view => exact view.render_draws

theorem Member.render_draws (member : Member) (base : Nat) :
    Draws fun _ sink => member.render sink base :=
  .andThen (.write _) (member.renderValue_draws base)

namespace VarField

variable (field : VarField)

theorem consume_browses : Browses field.consume :=
  (Browses.known (.pure _) (Browses.limit.bind fun _ => .getNumber _ _)).bind fun _ =>
    Browses.limit.bind fun _ => (Browses.addSize _ _).bind fun _ => (Browses.setLimit _).map _

theorem skip_browses : Browses field.skip := .known (.pure _) (field.consume_browses.map _)

theorem bytes_browses : Browses field.bytes :=
  .known (.pure _) (field.consume_browses.bind fun _ => .slice _ _)

theorem text_browses : Browses field.text := by
  unfold VarField.text
  split
  · exact field.bytes_browses.map _
  · exact field.skip_browses.map _

theorem render_draws : Draws fun _ sink => field.render sink :=
  .andThen (.write _) (.read field.text_browses fun _ => .write _)

end VarField

/-! ### Groups -/

namespace GroupView

theorem next_browses {view : GroupView} (more : view.taken < view.count) : Browses view.next := by
  rw [next_eq, hasNext, decide_eq_true more]
  exact Browses.limit.bind fun _ => (Browses.addSize _ _).bind fun _ => (Browses.setLimit _).map _

/-- A repetition is asked for only where there is one. -/
theorem renderEach_draws {each : ∀ σ : Type, Sink σ → GroupView → Render σ Unit}
    (draws : ∀ view, Draws fun σ sink => each σ sink view) (fuel : Nat) (view : GroupView) :
    Draws fun σ sink => view.renderEach sink (each σ sink) fuel := by
  induction fuel generalizing view with
  | zero => exact .done
  | succ fuel ih =>
    simp only [renderEach]
    split
    · next more =>
      have rest := Draws.read (next_browses (of_decide_eq_true more)) fun moved =>
        .andThen (draws moved) (ih moved)
      split
      · exact .andThen (.write ",") rest
      · exact rest
    · exact .done

/-- Repetitions are written in a row. -/
theorem renderEach_spells {each : GroupView → Render String Unit}
    (spells : ∀ view, Spells (each view) (each view).toText) (fuel : Nat) (view : GroupView) :
    Spells (view.renderEach .text each fuel)
      (do pure (inRow (0 ≤ view.index) (← view.forEachUpTo (fun view => (each view).toText) fuel)))
      := by
  induction fuel generalizing view with
  | zero =>
    rw [forEachUpTo, pure_bind, inRow_nil]
    exact .done
  | succ fuel ih =>
    rw [renderEach, forEachUpTo]
    by_cases more : view.hasNext = true
    · rw [if_pos more, if_pos more]
      have firm := (next_browses (of_decide_eq_true more)).firm
      have rest := Spells.read_of_run firm fun wire moved after ran => by
        have started : 0 ≤ moved.index := by
          rw [(run_next_eq_ok ran).1]
          show (0 : Int) ≤ ((view.taken + 1 : Nat) : Int) - 1
          omega
        have later := ih moved
        rw [decide_eq_true started] at later
        exact (spells moved).andThen later
      simp only [bind_assoc, pure_bind] at rest
      simp only [bind_assoc, pure_bind, inRow_cons]
      split
      · next started =>
        have all := (Spells.write ",").andThen rest
        simp only [bind_assoc, pure_bind] at all
        simp only [decide_eq_true started, if_true]
        exact all
      · next fresh =>
        simp only [decide_eq_false fresh, Bool.false_eq_true, if_false, String.empty_append]
        exact rest
    · rw [if_neg more, if_neg more, pure_bind, inRow_nil]
      exact .done

end GroupView

theorem GroupShape.openRead_browses (shape : GroupShape) : Browses shape.openRead :=
  .known (.pure _) (Browses.limit.bind fun _ => (Browses.getNumber _ _).bind fun _ =>
    (Browses.getNumber _ _).bind
      fun _ => (Browses.addSize _ _).bind fun _ => (Browses.setLimit _).map _)

namespace GroupShape

variable (shape : GroupShape)

theorem taken_of_run_openRead {view : GroupView} {wire after : Wire}
    (ran : shape.openRead.run wire = (.ok view, after)) : view.taken = 0 := by
  obtain ⟨older, middle, _, ran⟩ := run_bind_eq_ok ran
  split at ran
  · cases ran
    rfl
  · obtain ⟨start, middle, _, ran⟩ := run_bind_eq_ok ran
    obtain ⟨blockLength, middle, _, ran⟩ := run_bind_eq_ok ran
    obtain ⟨count, middle, _, ran⟩ := run_bind_eq_ok ran
    obtain ⟨limit, middle, _, ran⟩ := run_bind_eq_ok ran
    obtain ⟨_, middle, _, ran⟩ := run_bind_eq_ok ran
    cases ran
    rfl

theorem renderGroup_eq (sink : Sink σ) : renderGroup sink shape = (do
    Render.write sink (shape.name ++ "=[")
    let view ← Render.read shape.openRead
    view.renderEach sink (shape.render sink) (view.count - view.taken)
    Render.write sink "]") := by
  cases shape
  rw [renderGroup]
  rfl

end GroupShape

theorem renderGroups_eq (sink : Sink σ) (groups : List GroupShape) :
    renderGroups sink groups = groups.map (renderGroup sink) := by
  induction groups with
  | nil => rw [renderGroups, List.map_nil]
  | cons shape rest ih => rw [renderGroups, ih, List.map_cons]

theorem renderBody_draws_of (base : Nat) (members : List Member) {groups : List GroupShape}
    (varData : List VarField)
    (inner : ∀ shape ∈ groups, Draws fun _ sink => renderGroup sink shape) :
    Draws fun _ sink => renderBody sink base members groups varData := by
  have all := Draws.separated "|" fun work (member : work ∈
      ((members.filter Member.isShown).map fun member (σ : Type) (sink : Sink σ) =>
        member.render sink base) ++ (groups.map fun shape σ (sink : Sink σ) =>
          renderGroup sink shape) ++ varData.map fun field σ (sink : Sink σ) =>
            field.render sink) =>
    show Draws fun σ sink => work σ sink from by
      simp only [List.mem_append, List.mem_map] at member
      obtain (⟨member, _, rfl⟩ | ⟨shape, inside, rfl⟩) | ⟨field, _, rfl⟩ := member
      · exact member.render_draws base
      · exact inner shape inside
      · exact field.render_draws
  simp only [List.map_append, List.map_map] at all
  simp only [renderBody, renderGroups_eq]
  exact all

mutual

/-- Groups stand inside groups to any depth, so the induction is on the shape. -/
theorem renderGroup_draws : (shape : GroupShape) → Draws fun _ sink => renderGroup sink shape
  | .mk name blockLength least greatest since members groups varData => by
    simp only [GroupShape.renderGroup_eq]
    refine .andThen (.write _) (.read (GroupShape.openRead_browses _) fun view => ?_)
    refine .andThen (view.renderEach_draws (fun view => ?_) _) (.write _)
    have body := renderBody_draws_of view.offset members varData (renderGroups_draws groups)
    exact .andThen (.write _) (.andThen body (.write _))

theorem renderGroups_draws : (groups : List GroupShape) →
    ∀ shape ∈ groups, Draws fun _ sink => renderGroup sink shape
  | [] => List.forall_mem_nil _
  | shape :: rest =>
    List.forall_mem_cons.mpr ⟨renderGroup_draws shape, renderGroups_draws rest⟩

end
theorem renderBody_draws (base : Nat) (members : List Member) (groups : List GroupShape)
    (varData : List VarField) : Draws fun _ sink => renderBody sink base members groups varData :=
  renderBody_draws_of base members varData (renderGroups_draws groups)

/-! ### Entries -/

/-- The entry of a member. -/
def Member.entry (base : Nat) (member : Member) : Codec String := (member.render .text base).toText

/-- The entry of a field of variable length. -/
def VarField.entry (field : VarField) : Codec String := (field.render .text).toText

/-- The entry of a group. -/
def groupEntry (shape : GroupShape) : Codec String := (renderGroup .text shape).toText

/-- The entries of a body. -/
def bodyText (base : Nat) (members : List Member) (groups : List GroupShape)
    (varData : List VarField) : Codec String :=
  (renderBody .text base members groups varData).toText

theorem NumberField.entry_eq (field : NumberField) (base : Nat) :
    Member.entry base (.number field) =
      (do pure (field.name ++ "=" ++ field.primitive.shown (← field.read base))) := by
  refine ((Spells.write _).andThen
    (.read (field.read_browses _).firm fun _ => .write _)).toText_eq.trans ?_
  simp only [pure_bind, bind_assoc]
  rfl

theorem VarField.entry_eq (field : VarField) :
    field.entry = (do pure (field.name ++ "=" ++ (← field.text))) := by
  refine ((Spells.write _).andThen
    (.read field.text_browses.firm fun _ => .write _)).toText_eq.trans ?_
  simp only [pure_bind, bind_assoc]

theorem GroupShape.render_draws (shape : GroupShape) (view : GroupView) :
    Draws fun _ sink => shape.render sink view :=
  .andThen (.write _) (.andThen (renderBody_draws _ _ _ _) (.write _))

theorem GroupShape.text_eq (shape : GroupShape) (view : GroupView) :
    shape.text view = (do
      let body ← bodyText view.offset shape.members shape.groups shape.varData
      pure ("(" ++ body ++ ")")) := by
  refine ((Spells.write _).andThen
    ((renderBody_draws _ _ _ _).spells.andThen (.write _))).toText_eq.trans ?_
  simp only [pure_bind, bind_assoc, String.append_assoc]
  rfl

/-- The entry of a group is made of the texts of its repetitions. -/
theorem groupEntry_eq (shape : GroupShape) : groupEntry shape = (do
    let repetitions ← shape.readAll shape.text
    pure (shape.name ++ "=[" ++ String.intercalate "," repetitions ++ "]")) := by
  have row := Spells.read_of_run (GroupShape.openRead_browses shape).firm
    fun wire view after ran => by
      have spells := view.renderEach_spells (fun view => (shape.render_draws view).spells)
        (view.count - view.taken)
      have fresh : decide (0 ≤ view.index) = false := by
        rw [GroupView.index, shape.taken_of_run_openRead ran]
        rfl
      rw [fresh] at spells
      exact spells.andThen (.write "]")
  rw [groupEntry, GroupShape.renderGroup_eq]
  refine ((Spells.write _).andThen row).toText_eq.trans ?_
  simp only [GroupShape.readAll, pure_bind, bind_assoc, String.append_assoc]
  rfl

/-- A body is its members, then its groups, then its fields of variable length. -/
theorem bodyText_eq (base : Nat) (members : List Member) (groups : List GroupShape)
    (varData : List VarField) : bodyText base members groups varData = (do
      let memberEntries ← (members.filter Member.isShown).mapM (Member.entry base)
      let groupEntries ← groups.mapM groupEntry
      let varDataEntries ← varData.mapM VarField.entry
      pure (String.intercalate "|" (memberEntries ++ groupEntries ++ varDataEntries))) := by
  have entries := Spells.separated "|" fun work (member : work ∈
      (members.filter Member.isShown).map (Member.render .text base) ++
        groups.map (renderGroup .text) ++ varData.map (VarField.render .text)) =>
    show Spells work work.toText by
      simp only [List.mem_append, List.mem_map] at member
      obtain (⟨member, _, rfl⟩ | ⟨shape, _, rfl⟩) | ⟨field, _, rfl⟩ := member
      · exact (member.render_draws base).spells
      · exact (renderGroup_draws shape).spells
      · exact field.render_draws.spells
  simp only [List.map_id_fun', id_eq] at entries
  rw [bodyText, renderBody, renderGroups_eq, entries.toText_eq]
  simp only [List.mapM_append, List.mapM_map, pure_bind, bind_assoc]
  rfl

/-! ### Messages -/

/-- A number, after the one that was found in its place where the two differ. -/
def actingText (found expected : Nat) : String :=
  (if found = expected then "" else toString found ++ "/") ++ toString expected

theorem renderActing_draws (found expected : Nat) :
    Draws fun _ sink => renderActing sink found expected := by
  simp only [renderActing]
  split
  · exact .andThen (.write _) (.write _)
  · exact .write _

theorem renderActing_spells (found expected : Nat) :
    Spells (renderActing .text found expected) (pure (actingText found expected)) := by
  rw [renderActing, actingText]
  by_cases same : found = expected
  · rw [if_neg (not_not.mpr same), if_pos same, String.empty_append]
    exact .write _
  · rw [if_pos same, if_neg same]
    exact (Spells.write _).andThen (.write _)

theorem Render.run_restoringLimit (work : Render σ Unit) (wire : Wire) (out : σ) :
    (Render.restoringLimit work).run (wire, out) =
      match work.run (wire, out) with
      | (.error .fault, state) => (.error .fault, state)
      | (outcome, after, out) =>
        (outcome, { after with cursor := { after.cursor with limit := wire.cursor.limit } }, out) :=
  rfl

namespace MessageView

/-- Writes the message, after the limit is taken to the end of its block. -/
def renderRewound (sink : Sink σ) (view : MessageView) : Render σ Unit := do
  Render.read (do setLimit (← ofOutcome (addSize view.offset view.blockLength)))
  view.renderFromBlock sink

theorem renderFromBlock_draws (view : MessageView) :
    Draws fun _ sink => view.renderFromBlock sink := by
  refine .andThen (.write _) (.andThen (.write _) (.andThen (.write _) (.andThen (.write _)
    (.andThen (.write _) (.read .version fun found => ?_)))))
  exact .andThen (renderActing_draws _ _) (.andThen (.write _) (.andThen (renderActing_draws _ _)
    (.andThen (.write _) (renderBody_draws _ _ _ _))))

theorem renderRewound_draws (view : MessageView) : Draws fun _ sink => view.renderRewound sink :=
  .read ((Browses.addSize _ _).bind fun _ => .setLimit _) fun _ => view.renderFromBlock_draws

section

variable (sink : Sink σ) {view : MessageView} (wire : Wire) (out : σ)

theorem run_renderRewound (small : view.offset + view.blockLength < wordBound) :
    (view.renderRewound sink).run (wire, out) =
      (view.renderFromBlock sink).run
        (⟨wire.buffer, ⟨view.offset + view.blockLength, wire.cursor.version⟩⟩, out) := by
  have moved : (Render.read (do setLimit (← ofOutcome (addSize view.offset view.blockLength)))).run
      (wire, out) =
        (.ok (), ⟨wire.buffer, ⟨view.offset + view.blockLength, wire.cursor.version⟩⟩, out) := by
    rw [Render.run_read, run_bind_of_ok (run_addSize small wire)]
    rfl
  rw [renderRewound, run_bind_of_ok moved]

/-- The end of the block is beyond every index, so that no such message can be opened either. -/
theorem run_renderRewound_of_large (large : ¬view.offset + view.blockLength < wordBound) :
    (view.renderRewound sink).run (wire, out) = (.error .fault, wire, out) := by
  rw [renderRewound, run_bind, Render.run_read, addSize, if_neg large]
  rfl

/-- A rendering ends as it does from the end of the block. Unless that is in a fault, the wire is as
it was, also where the sink has refused a piece. -/
theorem run_render (view : MessageView) {outcome : Except (Halt Unit) Unit} {after : Wire}
    {left : σ} (ended : (view.renderRewound sink).run (wire, out) = (outcome, after, left)) :
    outcome = .error .fault ∧ (view.render sink).run (wire, out) = (.error .fault, after, left) ∨
    (view.render sink).run (wire, out) = (outcome, wire, left) := by
  obtain ⟨buffer, version⟩ := view.renderRewound_draws.roams sink ended
  have restored := Render.run_restoringLimit (view.renderRewound sink) wire out
  rw [ended] at restored
  obtain ⟨_, _, _⟩ := after
  cases buffer
  cases version
  rcases outcome with (_ | _) | _
  · exact .inr restored
  · exact .inl ⟨rfl, restored⟩
  · exact .inr restored

/-- Rendering a message just after it was opened does the same to the sink. -/
theorem run_openAt_render (view : MessageView) {outcome : Except (Halt Unit) Unit} {after : Wire}
    {left : σ} (ended : (view.renderRewound sink).run (wire, out) = (outcome, after, left)) :
    ∃ last, (Render.read (view.shape.openAt view.offset view.blockLength wire.cursor.version) >>=
      render sink).run (MessageShape.fresh wire.buffer, out) = (outcome, last, left) := by
  by_cases small : view.offset + view.blockLength < wordBound
  · have opened := Render.run_read
      (view.shape.openAt view.offset view.blockLength wire.cursor.version)
      (MessageShape.fresh wire.buffer) out
    rw [view.shape.run_openAt small] at opened
    rw [run_renderRewound sink wire out small] at ended
    rw [run_bind_of_ok opened]
    have again := (run_renderRewound sink
      ⟨wire.buffer, ⟨view.offset + view.blockLength, wire.cursor.version⟩⟩ out small).trans ended
    rcases view.run_render sink _ out again with ⟨rfl, stopped⟩ | done
    · exact ⟨_, stopped⟩
    · exact ⟨_, done⟩
  · rw [run_renderRewound_of_large sink wire out small] at ended
    cases ended
    rw [run_bind, Render.run_read, MessageShape.openAt, addSize, if_neg small]
    exact ⟨_, rfl⟩

end

/-- The text of a message whose body is shown as given. -/
def line (view : MessageView) (version : Nat) (body : String) : String :=
  "[" ++ view.shape.name ++ "](sbeTemplateId=" ++ toString view.shape.templateId ++
    "|sbeSchemaId=" ++ toString view.shape.schemaId ++
    "|sbeSchemaVersion=" ++ actingText version view.shape.version ++
    "|sbeBlockLength=" ++ actingText view.blockLength view.shape.blockLength ++ "):" ++ body

/-- The body of a message as text, with the limit at the end of its block. -/
def body (view : MessageView) : Codec String :=
  bodyText view.offset view.shape.members view.shape.groups view.shape.varData

/-- The message as text, with the limit at the end of its block. -/
def textFromBlock (view : MessageView) : Codec String := do
  let version ← version
  let body ← view.body
  pure (view.line version body)

/-- The message as text, after the limit is taken to the end of its block. -/
def rewoundText (view : MessageView) : Codec String := do
  setLimit (← ofOutcome (addSize view.offset view.blockLength))
  view.textFromBlock

theorem textFromBlock_spells (view : MessageView) :
    Spells (view.renderFromBlock .text) view.textFromBlock := by
  have body := (renderBody_draws view.offset view.shape.members view.shape.groups
    view.shape.varData).spells
  have version := Spells.read Browses.version.firm fun found =>
    (renderActing_spells found view.shape.version).andThen
      ((Spells.write "|sbeBlockLength=").andThen
        ((renderActing_spells view.blockLength view.shape.blockLength).andThen
          ((Spells.write "):").andThen body)))
  have all := (Spells.write ("[" ++ view.shape.name ++ "](sbeTemplateId=")).andThen
    ((Spells.write (toString view.shape.templateId)).andThen ((Spells.write "|sbeSchemaId=").andThen
      ((Spells.write (toString view.shape.schemaId)).andThen
        ((Spells.write "|sbeSchemaVersion=").andThen version))))
  simp only [pure_bind, bind_assoc, String.append_assoc] at all
  unfold textFromBlock line
  simp only [String.append_assoc]
  exact all

theorem rewoundText_spells (view : MessageView) :
    Spells (view.renderRewound .text) view.rewoundText := by
  have moves := (Browses.addSize view.offset view.blockLength).bind fun limit => .setLimit limit
  have spells := Spells.read moves.firm fun _ => view.textFromBlock_spells
  rw [bind_assoc] at spells
  exact spells

theorem run_rewoundText {view : MessageView} (small : view.offset + view.blockLength < wordBound)
    (wire : Wire) :
    view.rewoundText.run wire =
      view.textFromBlock.run
        ⟨wire.buffer, ⟨view.offset + view.blockLength, wire.cursor.version⟩⟩ := by
  rw [rewoundText, run_bind_of_ok (run_addSize small wire)]
  rfl

/-- A message is shown, with the wire as it was, or there is a fault. -/
theorem run_render_text (view : MessageView) (wire : Wire) :
    (∃ shown after, view.rewoundText.run wire = (.ok shown, after) ∧
        (view.render .text).run (wire, "") = (.ok (), wire, shown)) ∨
      ∃ after last left, view.rewoundText.run wire = (.error .fault, after) ∧
        (view.render .text).run (wire, "") = (.error .fault, last, left) := by
  rcases view.rewoundText_spells wire ""
    with ⟨shown, after, gave, wrote⟩ | ⟨after, left, gave, wrote⟩
  · rw [String.empty_append] at wrote
    rcases view.run_render .text wire "" wrote with ⟨stopped, _⟩ | done
    · cases stopped
    · exact .inl ⟨shown, after, gave, done⟩
  · rcases view.run_render .text wire "" wrote with ⟨_, stopped⟩ | stopped
    · exact .inr ⟨after, after, left, gave, stopped⟩
    · exact .inr ⟨after, wire, left, gave, stopped⟩

theorem run_text_of_rewound {view : MessageView} {wire after : Wire} {shown : String}
    (done : view.rewoundText.run wire = (.ok shown, after)) :
    view.text.run wire = (.ok shown, wire) := by
  rw [text, Render.run_toText]
  rcases view.run_render_text wire with ⟨other, last, gave, wrote⟩ | ⟨_, _, _, gave, _⟩
  · cases gave.symm.trans done
    rw [wrote]
  · cases gave.symm.trans done

theorem run_answer_rendered {view : MessageView} {wire : Wire} {shown : String}
    (done : (view.render .text).run (wire, "") = (.ok (), wire, shown)) :
    ((Element.message view).answer [.rendered]).run wire =
      (.ok (.row [.flag true, .text shown]), wire) := by
  have one : ((Element.message view).answerOne .rendered).run wire =
      (.ok (.row [.flag true, .text shown]), wire) := by
    have shows := Render.run_shown (view.render .text) wire
    rw [done] at shows
    rw [Element.answerOne, Element.render, run_bind_of_ok shows]
    rfl
  rw [Element.answer, List.mapM_cons, bind_assoc, run_bind_of_ok one]
  rfl

/-- The outcome of showing a message depends on its bytes and not on the limit. -/
theorem run_text_fst (view : MessageView) (wire : Wire) :
    (view.text.run wire).1 =
      ((view.shape.openAt view.offset view.blockLength wire.cursor.version >>= text).run
        (MessageShape.fresh wire.buffer)).1 := by
  have firm : Firm (view.shape.openAt view.offset view.blockLength wire.cursor.version) := by
    refine (Firm.addSize _ _).bind fun limit wire cause after refused => ?_
    cases refused
  have opens := Render.toText_read firm (render .text)
  rcases ended : (view.renderRewound .text).run (wire, "") with ⟨outcome, after, left⟩
  obtain ⟨last, opened⟩ := view.run_openAt_render .text wire "" ended
  have rendered : ∃ last, (view.render .text).run (wire, "") = (outcome, last, left) := by
    rcases view.run_render .text wire "" ended with ⟨rfl, stopped⟩ | done
    · exact ⟨after, stopped⟩
    · exact ⟨wire, done⟩
  obtain ⟨final, rendered⟩ := rendered
  change _ = ((view.shape.openAt view.offset view.blockLength wire.cursor.version >>= fun view =>
    (view.render .text).toText).run (MessageShape.fresh wire.buffer)).1
  rw [← opens, text, Render.run_toText, Render.run_toText, rendered, opened]
  cases outcome <;> rfl

/-- **Showing a message cannot be observed**, for every message, cars, orders and visits among them,
in any bytes and wherever the limit stands. The outcome is that of showing the message just after it
was opened: the same text, and a fault in the same cases. Where there is a text, the wire is as it
was, and a session that shows the message goes on as if it had not, with one entry more. A sink that
may refuse pieces of the text gets the same pieces as just after the opening, and the wire is as it
was also where it refuses one. -/
theorem text_unobservable (shape : MessageShape) (buffer : Buffer)
    (offset blockLength version limit : Nat) :
    let view : MessageView := ⟨shape, offset, blockLength⟩
    let wire : Wire := ⟨buffer, ⟨limit, version⟩⟩
    let outcome := ((shape.openAt offset blockLength version >>= text).run
      (MessageShape.fresh buffer)).1
    (view.text.run wire).1 = outcome ∧
      (outcome = .error .fault ∨ ∃ shown, view.text.run wire = (.ok shown, wire) ∧
        ∀ (entries : List Entry) (later : List Step),
          (Session.steps (.ask [.rendered] :: later) (.message view)).run.run ⟨wire, entries⟩ =
            (Session.steps later (.message view)).run.run
              ⟨wire, .gave (.row [.flag true, .text shown]) limit :: entries⟩) ∧
      ∀ (σ : Type) (sink : Sink σ) (out : σ),
        let rendered := (view.render sink).run (wire, out)
        let opened := (Render.read (shape.openAt offset blockLength version) >>= render sink).run
          (MessageShape.fresh buffer, out)
        rendered.1 = opened.1 ∧ rendered.2.2 = opened.2.2 ∧
          (rendered.1 = .error .fault ∨ rendered.2.1 = wire) := by
  intro view wire outcome
  have same : (view.text.run wire).1 = outcome := view.run_text_fst wire
  refine ⟨same, Classical.or_iff_not_imp_left.mpr fun safe => ?_, fun σ sink out => ?_⟩
  · rcases view.run_render_text wire with ⟨shown, after, gave, wrote⟩ | ⟨_, _, _, _, stopped⟩
    · refine ⟨shown, run_text_of_rewound gave, fun entries later => ?_⟩
      rw [Session.steps, Session.step, bind_assoc,
        Session.run_bind_of_some (Session.run_give_ok (run_answer_rendered wrote))]
      rfl
    · refine absurd ?_ (same ▸ safe)
      rw [text, Render.run_toText, stopped]
  · intro rendered opened
    rcases ended : (view.renderRewound sink).run (wire, out) with ⟨result, after, left⟩
    obtain ⟨last, fresh⟩ := view.run_openAt_render sink wire out ended
    have opens : opened = (result, last, left) := fresh
    rw [opens]
    rcases view.run_render sink wire out ended with ⟨rfl, stopped⟩ | done
    · have renders : rendered = (.error .fault, after, left) := stopped
      rw [renders]
      exact ⟨rfl, rfl, .inl rfl⟩
    · have renders : rendered = (result, wire, left) := done
      rw [renders]
      exact ⟨rfl, rfl, .inr rfl⟩

end MessageView

end Sbe.Codec
