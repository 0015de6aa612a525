import Sbe.Schema

/-!
**Layouts of message and group bodies.**

A body is a run of fields, then a run of groups, then a run of fields of variable length. Each run
is taken in whole spans without looking inside; `splitFields`, `splitGroups` and `splitVarData` then
open the spans of one run, and a group opens into a body of its own.
-/

namespace Sbe

/-- The three runs of a message or group body, and the index right after them. -/
structure Body where
  fields : List Token
  groups : List Token
  varData : List Token
  nextIndex : Nat
deriving DecidableEq

/-- The number of tokens of a body. -/
def Body.size (body : Body) : Nat :=
  body.fields.length + body.groups.length + body.varData.length

/-- A field of the fixed block: its opening token and the tokens of its type. -/
structure FieldLayout where
  field : Token
  type : List Token
deriving DecidableEq

/-- A repeating group: its opening token, the opening token of its dimensions and their two fields,
and its body. -/
structure GroupLayout where
  group : Token
  dimensions : Token
  blockLength : Token
  numInGroup : Token
  body : Body
deriving DecidableEq

/-- A field of variable length: its opening token and the two parts of its composite. -/
structure VarDataLayout where
  varData : Token
  length : Token
  data : Token
deriving DecidableEq

namespace Layout

/-- The cause for a token that stands where another signal should. -/
def misplaced (expected : Signal) (token : Token) : SchemaError :=
  .misplaced expected token.signal token.name

/-- The span of `token :: rest` that starts with `token`, and the tokens after it. -/
def splitSpan (index : Nat) (token : Token) (rest : List Token) :
    Result (List Token × List Token) :=
  let count := token.span
  let tooLong := SchemaError.unbalanced token.name token.signal index
    (.tooLong count (index + 1 + rest.length))
  if count < 2 then .refuse tooLong
  else if wordBound ≤ index + count then .fault
  else if rest.length + 1 < count then .refuse tooLong
  else .ok (token :: rest.take (count - 1), rest.drop (count - 1))

theorem splitSpan_length {index : Nat} {token : Token} {rest element after : List Token}
    (split : splitSpan index token rest = .ok (element, after)) :
    after.length ≤ rest.length := by
  unfold splitSpan at split
  dsimp only at split
  split at split
  · cases split
  · split at split
    · cases split
    · split at split
      · cases split
      · cases split
        simp

/-- The whole spans at the front that open with a signal, and the tokens after them. -/
def collect (signal : Signal) (index : Nat) : List Token → Result (List Token × List Token)
  | [] => .ok ([], [])
  | token :: rest =>
    if token.signal = signal then
      match split : splitSpan index token rest with
      | .error halt => .error halt
      | .ok (element, after) => do
        have := splitSpan_length split
        let (taken, remaining) ← collect signal (index + element.length) after
        pure (element ++ taken, remaining)
    else .ok ([], token :: rest)
termination_by tokens => tokens.length
decreasing_by simp only [List.length_cons]; omega

theorem splitSpan_append {index : Nat} {token : Token} {rest element after : List Token}
    (split : splitSpan index token rest = .ok (element, after)) :
    element ++ after = token :: rest := by
  unfold splitSpan at split
  dsimp only at split
  split at split
  · cases split
  · split at split
    · cases split
    · split at split
      · cases split
      · cases split
        simp

/-- Collecting spans loses no token and keeps their order. -/
theorem collect_append {signal : Signal} {index : Nat} {tokens taken remaining : List Token}
    (collected : collect signal index tokens = .ok (taken, remaining)) :
    taken ++ remaining = tokens := by
  fun_induction collect signal index tokens generalizing taken remaining with
  | case1 => cases collected; rfl
  | case2 => cases collected
  | case3 index token rest _ element after split _ ih =>
    cases tail : collect signal (index + element.length) after with
    | error halt => rw [tail] at collected; cases collected
    | ok parts =>
      obtain ⟨taken', remaining'⟩ := parts
      rw [tail] at collected
      cases collected
      rw [List.append_assoc, ih tail, splitSpan_append split]
  | case4 => cases collected; rfl

/-- The whole spans from an index on that open with a signal, and the index after them; a fault when
the index is past the end. -/
def collectAt (signal : Signal) (tokens : List Token) (index : Nat) : Result (List Token × Nat) :=
  if tokens.length < index then .fault
  else do
    let (taken, _) ← collect signal index (tokens.drop index)
    pure (taken, index + taken.length)

/-- The body that starts at an index. -/
def decompose (tokens : List Token) (index : Nat) : Result Body := do
  let (fields, index) ← collectAt .beginField tokens index
  let (groups, index) ← collectAt .beginGroup tokens index
  let (varData, index) ← collectAt .beginVarData tokens index
  pure ⟨fields, groups, varData, index⟩

/-- The body that a list of tokens is, with nothing left over. -/
def decomposeAll (tokens : List Token) : Result Body := do
  let body ← decompose tokens 0
  match tokens[body.nextIndex]? with
  | some extra => .refuse (.unexpectedToken extra.name extra.signal body.nextIndex)
  | none => pure body

theorem collectAt_append {signal : Signal} {tokens taken : List Token} {index next : Nat}
    (collected : collectAt signal tokens index = .ok (taken, next)) :
    next = index + taken.length ∧ next ≤ tokens.length ∧
      taken ++ tokens.drop next = tokens.drop index := by
  unfold collectAt at collected
  split at collected
  · cases collected
  · next inside =>
    cases found : collect signal index (tokens.drop index) with
    | error halt => rw [found] at collected; cases collected
    | ok parts =>
      obtain ⟨taken', remaining⟩ := parts
      rw [found] at collected
      cases collected
      have whole := collect_append found
      have sizes := congrArg List.length whole
      simp only [List.length_append, List.length_drop] at sizes
      refine ⟨rfl, by omega, ?_⟩
      rw [← List.drop_drop, ← whole, List.drop_left]

/-- A body is a stretch of the tokens it was taken from. -/
theorem decompose_append {tokens : List Token} {index : Nat} {body : Body}
    (found : decompose tokens index = .ok body) :
    body.nextIndex = index + body.size ∧ body.nextIndex ≤ tokens.length ∧
      body.fields ++ body.groups ++ body.varData ++ tokens.drop body.nextIndex
        = tokens.drop index := by
  unfold decompose at found
  cases first : collectAt .beginField tokens index with
  | error halt => rw [first] at found; cases found
  | ok one =>
    obtain ⟨fields, afterFields⟩ := one
    rw [first] at found
    simp only [bind, Except.bind] at found
    cases second : collectAt .beginGroup tokens afterFields with
    | error halt => rw [second] at found; cases found
    | ok two =>
      obtain ⟨groups, afterGroups⟩ := two
      rw [second] at found
      simp only at found
      cases third : collectAt .beginVarData tokens afterGroups with
      | error halt => rw [third] at found; cases found
      | ok three =>
        obtain ⟨varData, afterVarData⟩ := three
        rw [third] at found
        cases found
        obtain ⟨one, _, oneWhole⟩ := collectAt_append first
        obtain ⟨two, _, twoWhole⟩ := collectAt_append second
        obtain ⟨three, bound, threeWhole⟩ := collectAt_append third
        refine ⟨by simp only [Body.size]; omega, bound, ?_⟩
        show fields ++ groups ++ varData ++ tokens.drop afterVarData = tokens.drop index
        rw [List.append_assoc, List.append_assoc, threeWhole, twoWhole, oneWhole]

theorem decomposeAll_size_le {tokens : List Token} {body : Body}
    (found : decomposeAll tokens = .ok body) : body.size ≤ tokens.length := by
  unfold decomposeAll at found
  cases parts : decompose tokens 0 with
  | error halt => rw [parts] at found; cases found
  | ok whole =>
    rw [parts] at found
    simp only [bind, Except.bind] at found
    split at found
    · cases found
    · cases found
      have bounds := decompose_append parts
      omega

/-- The tokens inside the span that starts with `token`, and the tokens after it. The span must end
in the token that closes it. -/
def closedSpan (index : Nat) (token : Token) (rest : List Token) :
    Result (List Token × List Token) :=
  match token.signal.closing? with
  | none => .refuse (.unexpectedToken token.name token.signal index)
  | some closing => do
    let (element, after) ← splitSpan index token rest
    let last := element.getLast?.getD token
    if last.signal = closing then pure (element.tail.dropLast, after)
    else
      .refuse <| .unbalanced token.name token.signal index <|
        .wrongEnd closing (index + element.length - 1) last.signal

theorem closedSpan_length {index : Nat} {token : Token} {rest inner after : List Token}
    (split : closedSpan index token rest = .ok (inner, after)) :
    inner.length ≤ rest.length ∧ after.length ≤ rest.length := by
  unfold closedSpan at split
  split at split
  · cases split
  · cases opened : splitSpan index token rest with
    | error halt => rw [opened] at split; cases split
    | ok parts =>
      obtain ⟨element, after'⟩ := parts
      have short := splitSpan_length opened
      have inside : element.tail.length ≤ rest.length := by
        unfold splitSpan at opened
        dsimp only at opened
        split at opened
        · cases opened
        · split at opened
          · cases opened
          · split at opened
            · cases opened
            · cases opened
              simp only [List.tail_cons, List.length_take]
              omega
      rw [opened] at split
      simp only [bind, Except.bind] at split
      split at split
      · cases split
        simp only [List.length_dropLast]
        omega
      · cases split

/-- The index of the token that closes the span opened at an index; a fault when there is no
token. -/
def findEnd (tokens : List Token) (index : Nat) : Result Nat :=
  match tokens.drop index with
  | [] => .fault
  | token :: rest => do
    let (inner, _) ← closedSpan index token rest
    pure (index + inner.length + 1)

/-- The tokens between the first and the last of a message. -/
def messageBody : List Token → Result (List Token)
  | [] => .refuse (.emptyTokens .message)
  | first :: rest =>
    if first.signal = .beginMessage ∧ rest ≠ [] then .ok rest.dropLast
    else .refuse (misplaced .beginMessage first)

/-- The body of a message. -/
def decomposeMessage (tokens : List Token) : Result Body := do
  decomposeAll (← messageBody tokens)

/-- The fields of a run. -/
def splitFields (index : Nat) : List Token → Result (List FieldLayout)
  | [] => .ok []
  | token :: rest =>
    if token.signal ≠ .beginField then .refuse (misplaced .beginField token)
    else
      match split : closedSpan index token rest with
      | .error halt => .error halt
      | .ok (type, after) => do
        have := closedSpan_length split
        let others ← splitFields (index + type.length + 2) after
        pure (⟨token, type⟩ :: others)
termination_by tokens => tokens.length
decreasing_by simp only [List.length_cons]; omega

/-- The encoding `offset` tokens after the first of a list, which must stand less than `limit`
tokens after it. -/
def encodingAt (tokens : List Token) (offset limit : Nat) : Result Token :=
  match tokens[offset]?, tokens.getLast? with
  | some token, _ =>
    if offset < limit ∧ token.signal = .encoding then .ok token
    else .refuse (misplaced .encoding token)
  | none, some last => .refuse (misplaced .encoding last)
  | none, none => .fault

/-- The group that a token opens, given the tokens inside its span and all tokens after it. -/
def groupLayout (index : Nat) (token : Token) (inner rest : List Token) : Result GroupLayout :=
  match rest with
  | [] => .fault
  | dimensions :: others =>
    if dimensions.signal ≠ .beginComposite then .refuse (misplaced .beginComposite dimensions)
    else do
      let (members, _) ← closedSpan (index + 1) dimensions others
      let dimensionsEnd := members.length + 2
      if inner.length < dimensionsEnd then
        .refuse <| .unbalanced dimensions.name dimensions.signal (index + 1)
          (.dimensions token.name)
      else
        let blockLength ← encodingAt (token :: rest) 2 dimensionsEnd
        let numInGroup ← encodingAt (token :: rest) 3 dimensionsEnd
        let body ← decomposeAll (inner.drop dimensionsEnd)
        pure ⟨token, dimensions, blockLength, numInGroup, body⟩

theorem groupLayout_size_lt {index : Nat} {token : Token} {inner rest : List Token}
    {layout : GroupLayout} (found : groupLayout index token inner rest = .ok layout) :
    layout.body.size < inner.length := by
  unfold groupLayout at found
  split at found
  · cases found
  · next dimensions others =>
    split at found
    · cases found
    · cases opened : closedSpan (index + 1) dimensions others with
      | error halt => rw [opened] at found; cases found
      | ok parts =>
        obtain ⟨members, after⟩ := parts
        rw [opened] at found
        simp only [bind, Except.bind] at found
        split at found
        · cases found
        · next long =>
          split at found
          · cases found
          · split at found
            · cases found
            · split at found
              · cases found
              · next body decomposed =>
                cases found
                have bound := decomposeAll_size_le decomposed
                simp only [List.length_drop] at bound
                show body.size < inner.length
                omega

/-- The groups of a run. -/
def splitGroups (index : Nat) : List Token → Result (List GroupLayout)
  | [] => .ok []
  | token :: rest =>
    if token.signal ≠ .beginGroup then .refuse (misplaced .beginGroup token)
    else
      match split : closedSpan index token rest with
      | .error halt => .error halt
      | .ok (inner, after) => do
        have := closedSpan_length split
        let layout ← groupLayout index token inner rest
        let others ← splitGroups (index + inner.length + 2) after
        pure (layout :: others)
termination_by tokens => tokens.length
decreasing_by simp only [List.length_cons]; omega

/-- The body of a group is smaller than the run the group stands in. -/
theorem size_lt_of_mem_splitGroups {index : Nat} {tokens : List Token}
    {layouts : List GroupLayout} (found : splitGroups index tokens = .ok layouts)
    {layout : GroupLayout} (member : layout ∈ layouts) : layout.body.size < tokens.length := by
  fun_induction splitGroups index tokens generalizing layouts with
  | case1 => cases found; cases member
  | case2 => cases found
  | case3 => cases found
  | case4 index token rest _ inner after split bounds ih =>
    cases first : groupLayout index token inner rest with
    | error halt => rw [first] at found; cases found
    | ok head =>
      rw [first] at found
      simp only [bind, Except.bind] at found
      cases tail : splitGroups (index + inner.length + 2) after with
      | error halt => rw [tail] at found; cases found
      | ok others =>
        rw [tail] at found
        cases found
        simp only [List.length_cons]
        cases member with
        | head =>
          have small := groupLayout_size_lt first
          omega
        | tail _ inside =>
          have small := ih tail inside
          omega

/-- The groups of a body; each of their bodies is smaller than the body itself. -/
def groups (body : Body) : Result (List { layout : GroupLayout // layout.body.size < body.size }) :=
  match found : splitGroups 0 body.groups with
  | .error halt => .error halt
  | .ok layouts =>
    .ok <| layouts.attach.map fun ⟨layout, member⟩ =>
      ⟨layout, by
        have small := size_lt_of_mem_splitGroups found member
        unfold Body.size at *
        omega⟩

/-- The fields of variable length of a run. -/
def splitVarData (index : Nat) : List Token → Result (List VarDataLayout)
  | [] => .ok []
  | token :: rest =>
    if token.signal ≠ .beginVarData then .refuse (misplaced .beginVarData token)
    else
      match split : closedSpan index token rest with
      | .error halt => .error halt
      | .ok (inner, after) => do
        have := closedSpan_length split
        let length ← encodingAt (token :: rest) 2 (inner.length + 1)
        let data ← encodingAt (token :: rest) 3 (inner.length + 1)
        let others ← splitVarData (index + inner.length + 2) after
        pure (⟨token, length, data⟩ :: others)
termination_by tokens => tokens.length
decreasing_by simp only [List.length_cons]; omega

/-! ### Scans without their proofs of termination -/

theorem collect_eq (signal : Signal) (index : Nat) (token : Token) (rest : List Token) :
    collect signal index (token :: rest) =
      if token.signal = signal then do
        let parts ← splitSpan index token rest
        let taken ← collect signal (index + parts.1.length) parts.2
        pure (parts.1 ++ taken.1, taken.2)
      else .ok ([], token :: rest) := by
  rw [collect]
  split
  · split
    · next failed => rw [failed]; rfl
    · next found => simp only [found]; rfl
  · rfl

theorem splitFields_eq (index : Nat) (token : Token) (rest : List Token) :
    splitFields index (token :: rest) =
      if token.signal ≠ .beginField then .refuse (misplaced .beginField token)
      else (do
        let parts ← closedSpan index token rest
        let others ← splitFields (index + parts.1.length + 2) parts.2
        pure (⟨token, parts.1⟩ :: others)) := by
  rw [splitFields]
  split
  · rfl
  · split
    · next failed => rw [failed]; rfl
    · next found => simp only [found]; rfl

theorem splitGroups_eq (index : Nat) (token : Token) (rest : List Token) :
    splitGroups index (token :: rest) =
      if token.signal ≠ .beginGroup then .refuse (misplaced .beginGroup token)
      else (do
        let parts ← closedSpan index token rest
        let layout ← groupLayout index token parts.1 rest
        let others ← splitGroups (index + parts.1.length + 2) parts.2
        pure (layout :: others)) := by
  rw [splitGroups]
  split
  · rfl
  · split
    · next failed => rw [failed]; rfl
    · next found => simp only [found]; rfl

theorem splitVarData_eq (index : Nat) (token : Token) (rest : List Token) :
    splitVarData index (token :: rest) =
      if token.signal ≠ .beginVarData then .refuse (misplaced .beginVarData token)
      else (do
        let parts ← closedSpan index token rest
        let length ← encodingAt (token :: rest) 2 (parts.1.length + 1)
        let data ← encodingAt (token :: rest) 3 (parts.1.length + 1)
        let others ← splitVarData (index + parts.1.length + 2) parts.2
        pure (⟨token, length, data⟩ :: others)) := by
  rw [splitVarData]
  split
  · rfl
  · split
    · next failed => rw [failed]; rfl
    · next found => simp only [found]; rfl

end Layout

end Sbe
