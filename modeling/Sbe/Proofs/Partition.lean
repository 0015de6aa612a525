import Sbe.Layout
import Sbe.Proofs.Outcome

/-!
**A body is cut out of its stream without loss.**

Decomposition scans a stream three times, for fields, for groups and for fields of variable length.
Each scan passes over whole spans, so it depends only on the counts of the opening tokens it comes
to. The streams are arbitrary: nothing is assumed about what stands inside a span.

* `splitSpan_eq_ok_iff`, `splitSpan_eq_error`: what passing over one span does;
* `collect_run`, `collect_error`: a scan takes as many whole spans as there are, or ends at one that
  does not fit;
* `decompose_partitions`: the three scans together.
-/

namespace Sbe

/-! ### Spans and what a scan comes to -/

/-- The span that a token opens at an index has two tokens or more and ends inside a stream. -/
def Token.Fits (token : Token) (index total : Nat) : Prop :=
  2 ≤ token.span ∧ index + token.span ≤ total

/-- How a scan of a stream ends at an opening token that it cannot pass over: with a refusal that
names the token, or with a fault where the end of its span is no index at all. -/
def Token.Stops (token : Token) (index total : Nat) : Halt SchemaError → Prop
  | .refused cause =>
    cause = .unbalanced token.name token.signal index (.tooLong token.span total) ∧
      ¬ token.Fits index total
  | .fault => 2 ≤ token.span ∧ wordBound ≤ index + token.span

/-- No stream is so long that a span which ends at no index could fit in it. -/
theorem Token.Stops.not_fits {token : Token} {index total : Nat} {halt : Halt SchemaError}
    (stops : token.Stops index total halt) (small : total < wordBound) :
    ¬ token.Fits index total := by
  cases halt with
  | refused cause => exact stops.2
  | fault =>
    intro fits
    have past := stops.2
    have inside := fits.2
    omega

namespace Layout

/-- A whole span: its first token has the signal and counts the tokens of the span. -/
def IsSpan (signal : Signal) (span : List Token) : Prop :=
  ∃ token rest, span = token :: rest ∧ token.signal = signal ∧ token.span = span.length ∧
    2 ≤ span.length

/-- Tokens that are whole spans with one signal, one after another. -/
def IsRun (signal : Signal) (tokens : List Token) : Prop :=
  ∃ spans : List (List Token), tokens = spans.flatten ∧ ∀ span ∈ spans, IsSpan signal span

theorem IsRun.nil (signal : Signal) : IsRun signal [] := by
  refine ⟨[], rfl, ?_⟩
  intro span member
  cases member

theorem IsRun.append {signal : Signal} {span tokens : List Token} (first : IsSpan signal span)
    (later : IsRun signal tokens) : IsRun signal (span ++ tokens) := by
  obtain ⟨spans, rfl, each⟩ := later
  exact ⟨span :: spans, rfl, List.forall_mem_cons.mpr ⟨first, each⟩⟩

/-- No token stands at the front that opens with the signal. -/
def Ends (signal : Signal) (tokens : List Token) : Prop :=
  ∀ token ∈ tokens.head?, token.signal ≠ signal

/-- The opening tokens that a scan for some signals comes to, with their indices. It passes over
each span that fits, and turns to the next signal where the one before has ended. -/
inductive Visits (total : Nat) : List Signal → Nat → List Token → Nat → Token → Prop where
  | here {signal : Signal} {signals : List Signal} {index : Nat} {token : Token} {rest : List Token}
    (opens : token.signal = signal) :
    Visits total (signal :: signals) index (token :: rest) index token
  | past {signal : Signal} {signals : List Signal} {index found : Nat} {token opening : Token}
    {rest : List Token} (opens : token.signal = signal) (fits : token.Fits index total)
    (later : Visits total (signal :: signals) (index + token.span)
      ((token :: rest).drop token.span) found opening) :
    Visits total (signal :: signals) index (token :: rest) found opening
  | turn {signal : Signal} {signals : List Signal} {index found : Nat} {opening : Token}
    {tokens : List Token} (ends : Ends signal tokens)
    (later : Visits total signals index tokens found opening) :
    Visits total (signal :: signals) index tokens found opening

/-- A visited token stands in the stream at its index. -/
theorem Visits.getElem?_eq {total : Nat} {signals : List Signal} {index found : Nat}
    {stream tokens : List Token} {opening : Token}
    (visits : Visits total signals index tokens found opening)
    (place : tokens = stream.drop index) : stream[found]? = some opening := by
  induction visits with
  | here opens =>
    rw [← List.head?_drop, ← place]
    rfl
  | past opens fits later ih =>
    apply ih
    rw [place, List.drop_drop]
  | turn ends later ih => exact ih place

/-! ### One span -/

theorem splitSpan_eq_ok_iff {index : Nat} {token : Token} {rest element after : List Token} :
    splitSpan index token rest = .ok (element, after) ↔
      token.Fits index (index + (rest.length + 1)) ∧ index + token.span < wordBound ∧
        element = (token :: rest).take token.span ∧ after = (token :: rest).drop token.span := by
  have cut : 2 ≤ token.span →
      token :: rest.take (token.span - 1) = (token :: rest).take token.span ∧
        rest.drop (token.span - 1) = (token :: rest).drop token.span := by
    intro long
    obtain ⟨count, size⟩ := Nat.exists_eq_add_of_le' long
    rw [size]
    exact ⟨rfl, rfl⟩
  unfold splitSpan Token.Fits
  dsimp only
  by_cases short : token.span < 2
  · rw [if_pos short]
    simp only [Outcome.refuse_ne_ok, false_iff]
    omega
  rw [if_neg short]
  by_cases past : wordBound ≤ index + token.span
  · rw [if_pos past]
    simp only [Outcome.fault_ne_ok, false_iff]
    omega
  rw [if_neg past]
  by_cases long : rest.length + 1 < token.span
  · rw [if_pos long]
    simp only [Outcome.refuse_ne_ok, false_iff]
    omega
  rw [if_neg long, (cut (by omega)).1, (cut (by omega)).2]
  constructor
  · intro same
    cases same
    exact ⟨⟨by omega, by omega⟩, by omega, rfl, rfl⟩
  · rintro ⟨_, _, rfl, rfl⟩
    rfl

theorem splitSpan_eq_error {index : Nat} {token : Token} {rest : List Token}
    {halt : Halt SchemaError} (failed : splitSpan index token rest = .error halt) :
    token.Stops index (index + (rest.length + 1)) halt := by
  have total : index + 1 + rest.length = index + (rest.length + 1) := by omega
  unfold splitSpan at failed
  dsimp only at failed
  rw [total] at failed
  by_cases short : token.span < 2
  · rw [if_pos short] at failed
    cases failed
    exact ⟨rfl, fun fits => by have := fits.1; omega⟩
  rw [if_neg short] at failed
  by_cases past : wordBound ≤ index + token.span
  · rw [if_pos past] at failed
    cases failed
    exact ⟨by omega, past⟩
  rw [if_neg past] at failed
  by_cases long : rest.length + 1 < token.span
  · rw [if_pos long] at failed
    cases failed
    exact ⟨rfl, fun fits => by have := fits.2; omega⟩
  · rw [if_neg long] at failed
    cases failed

theorem isSpan_take {token : Token} {rest : List Token} {index : Nat}
    (fits : token.Fits index (index + (rest.length + 1))) :
    IsSpan token.signal ((token :: rest).take token.span) := by
  obtain ⟨long, inside⟩ := fits
  have size : ((token :: rest).take token.span).length = token.span := by
    rw [List.length_take, List.length_cons]
    omega
  obtain ⟨count, span⟩ := Nat.exists_eq_add_of_le' long
  refine ⟨token, rest.take (token.span - 1), ?_, rfl, size.symm, by omega⟩
  rw [span]
  rfl

/-- What is passed over has as many tokens as its first one counts, and nothing is lost. -/
theorem splitSpan_sizes {index : Nat} {token : Token} {rest element after : List Token}
    (split : splitSpan index token rest = .ok (element, after)) :
    element.length = token.span ∧
    index + element.length + after.length = index + (rest.length + 1) := by
  obtain ⟨⟨_, inside⟩, _, rfl, rfl⟩ := splitSpan_eq_ok_iff.mp split
  rw [List.length_take, List.length_drop, List.length_cons]
  omega

/-! ### One scan -/

/-- A scan takes whole spans as long as there are any. What it comes to fits, or is come to by the
scans after it. -/
theorem collect_run {signal : Signal} {index total : Nat} {tokens taken remaining : List Token}
    (collected : collect signal index tokens = .ok (taken, remaining))
    (place : index + tokens.length = total) :
    IsRun signal taken ∧ Ends signal remaining ∧
      ∀ (signals : List Signal) (found : Nat) (opening : Token),
        Visits total (signal :: signals) index tokens found opening →
          opening.Fits found total ∨
            Visits total signals (index + taken.length) remaining found opening := by
  fun_induction collect signal index tokens generalizing taken remaining with
  | case1 index =>
    cases collected
    refine ⟨.nil _, by simp [Ends], ?_⟩
    intro signals found opening visits
    cases visits with
    | turn _ later => exact .inr later
  | case2 => cases collected
  | case3 index token rest opens element after split _ ih =>
    obtain ⟨fits, _, element_eq, after_eq⟩ := splitSpan_eq_ok_iff.mp split
    obtain ⟨size, sizes⟩ := splitSpan_sizes split
    obtain ⟨⟨more, others⟩, tail, same⟩ := Outcome.bind_eq_ok_iff.mp collected
    cases same
    obtain ⟨run, ends, visited⟩ := ih tail (sizes.trans place)
    have first : IsSpan signal element := by
      rw [element_eq, ← opens]
      exact isSpan_take fits
    refine ⟨.append first run, ends, ?_⟩
    intro signals found opening visits
    rw [List.length_append, ← Nat.add_assoc]
    cases visits with
    | here =>
      rw [← place]
      exact .inl fits
    | past _ _ onward =>
      rw [← after_eq, ← size] at onward
      exact visited signals found opening onward
    | turn ends _ => exact absurd opens (ends token rfl)
  | case4 index token rest differs =>
    cases collected
    refine ⟨.nil _, by simpa [Ends] using differs, ?_⟩
    intro signals found opening visits
    cases visits with
    | here opens => exact absurd opens differs
    | past opens => exact absurd opens differs
    | turn _ later => exact .inr later

/-- What a later scan comes to is come to from the start. -/
theorem visits_of_collect {signal : Signal} {signals : List Signal} {index total found : Nat}
    {opening : Token} {tokens taken remaining : List Token}
    (collected : collect signal index tokens = .ok (taken, remaining))
    (place : index + tokens.length = total)
    (later : Visits total signals (index + taken.length) remaining found opening) :
    Visits total (signal :: signals) index tokens found opening := by
  fun_induction collect signal index tokens generalizing taken remaining with
  | case1 index =>
    cases collected
    exact .turn (by simp [Ends]) later
  | case2 => cases collected
  | case3 index token rest opens element after split _ ih =>
    obtain ⟨fits, _, _, after_eq⟩ := splitSpan_eq_ok_iff.mp split
    obtain ⟨size, sizes⟩ := splitSpan_sizes split
    obtain ⟨⟨more, others⟩, tail, same⟩ := Outcome.bind_eq_ok_iff.mp collected
    cases same
    rw [List.length_append, ← Nat.add_assoc] at later
    have onward := ih tail (sizes.trans place) later
    rw [size, after_eq] at onward
    rw [← place] at onward ⊢
    exact .past opens fits onward
  | case4 index token rest differs =>
    cases collected
    exact .turn (by simpa [Ends] using differs) later

/-- A scan that fails has come to an opening token that stops it. -/
theorem collect_error {signal : Signal} {index total : Nat} {tokens : List Token}
    {halt : Halt SchemaError} (failed : collect signal index tokens = .error halt)
    (place : index + tokens.length = total) (signals : List Signal) :
    ∃ found opening, Visits total (signal :: signals) index tokens found opening ∧
      opening.Stops found total halt := by
  fun_induction collect signal index tokens with
  | case1 => cases failed
  | case2 index token rest opens other split =>
    cases failed
    refine ⟨index, token, .here opens, ?_⟩
    rw [← place]
    exact splitSpan_eq_error split
  | case3 index token rest opens element after split _ ih =>
    obtain ⟨fits, _, _, after_eq⟩ := splitSpan_eq_ok_iff.mp split
    obtain ⟨size, sizes⟩ := splitSpan_sizes split
    cases tail : collect signal (index + element.length) after with
    | ok parts =>
      rw [tail] at failed
      cases failed
    | error other =>
      rw [tail] at failed
      cases failed
      obtain ⟨found, opening, visits, stops⟩ := ih tail (sizes.trans place)
      rw [size, after_eq] at visits
      refine ⟨found, opening, ?_, stops⟩
      rw [← place] at visits ⊢
      exact .past opens fits visits
  | case4 => cases failed

/-! ### Three scans -/

theorem collectAt_eq_ok_iff {signal : Signal} {tokens taken : List Token} {index next : Nat} :
    collectAt signal tokens index = .ok (taken, next) ↔ index ≤ tokens.length ∧
      collect signal index (tokens.drop index) = .ok (taken, tokens.drop next) ∧
        next = index + taken.length := by
  unfold collectAt
  by_cases past : tokens.length < index
  · rw [if_pos past]
    simp only [Outcome.fault_ne_ok, false_iff]
    omega
  rw [if_neg past, Outcome.bind_eq_ok_iff]
  constructor
  · rintro ⟨⟨taken, remaining⟩, collected, same⟩
    cases same
    have whole := collect_append collected
    refine ⟨by omega, ?_, rfl⟩
    rw [collected, ← List.drop_drop, ← whole, List.drop_left]
  · rintro ⟨_, collected, rfl⟩
    exact ⟨_, collected, rfl⟩

theorem collectAt_eq_error {signal : Signal} {tokens : List Token} {index : Nat}
    {halt : Halt SchemaError} (failed : collectAt signal tokens index = .error halt)
    (inside : index ≤ tokens.length) : collect signal index (tokens.drop index) = .error halt := by
  unfold collectAt at failed
  rw [if_neg (Nat.not_lt.mpr inside)] at failed
  cases collected : collect signal index (tokens.drop index) with
  | ok parts =>
    rw [collected] at failed
    cases failed
  | error other =>
    rw [collected] at failed
    cases failed
    rfl

theorem add_length_drop {tokens : List Token} {index : Nat} (inside : index ≤ tokens.length) :
    index + (tokens.drop index).length = tokens.length := by
  rw [List.length_drop]
  omega

/-- The signals of a body, in the order in which they are scanned for. -/
def bodySignals : List Signal := [.beginField, .beginGroup, .beginVarData]

end Layout

open Layout in
/-- How the three runs of a body lie in the stream from an index on: they follow one another up to
the next index, each is made of whole spans, and none of them could be longer. -/
structure Body.Partitions (body : Body) (tokens : List Token) (index : Nat) : Prop where
  start : index ≤ body.nextIndex
  inside : body.nextIndex ≤ tokens.length
  whole : body.fields ++ body.groups ++ body.varData = tokens.extract index body.nextIndex
  fields : IsRun .beginField body.fields
  groups : IsRun .beginGroup body.groups
  varData : IsRun .beginVarData body.varData
  fieldsEnd : Ends .beginField (tokens.drop (index + body.fields.length))
  groupsEnd : Ends .beginGroup (tokens.drop (index + body.fields.length + body.groups.length))
  varDataEnd : Ends .beginVarData (tokens.drop body.nextIndex)

namespace Layout

theorem extract_eq_of_append {tokens taken : List Token} {index next : Nat}
    (whole : taken ++ tokens.drop next = tokens.drop index) (length : next = index + taken.length) :
    taken = tokens.extract index next := by
  rw [List.extract_eq_take_drop, ← whole, length, Nat.add_sub_cancel_left, List.take_left]

/-- Three scans that succeed cut three runs out of the stream, and everything they came to fits. -/
theorem decompose_eq_ok {tokens : List Token} {index : Nat} {body : Body}
    (found : decompose tokens index = .ok body) :
    body.Partitions tokens index ∧
      ∀ (place : Nat) (opening : Token),
        Visits tokens.length bodySignals index (tokens.drop index) place opening →
          opening.Fits place tokens.length := by
  obtain ⟨length, inside, whole⟩ := decompose_append found
  unfold decompose at found
  obtain ⟨⟨fields, afterFields⟩, first, found⟩ := Outcome.bind_eq_ok_iff.mp found
  obtain ⟨⟨groups, afterGroups⟩, second, found⟩ := Outcome.bind_eq_ok_iff.mp found
  obtain ⟨⟨varData, next⟩, third, found⟩ := Outcome.bind_eq_ok_iff.mp found
  cases found
  obtain ⟨start, first, rfl⟩ := collectAt_eq_ok_iff.mp first
  obtain ⟨fieldsInside, second, rfl⟩ := collectAt_eq_ok_iff.mp second
  obtain ⟨groupsInside, third, rfl⟩ := collectAt_eq_ok_iff.mp third
  obtain ⟨fieldRun, fieldsEnd, fieldsVisited⟩ := collect_run first (add_length_drop start)
  obtain ⟨groupRun, groupsEnd, groupsVisited⟩ := collect_run second (add_length_drop fieldsInside)
  obtain ⟨varDataRun, varDataEnd, varDataVisited⟩ :=
    collect_run third (add_length_drop groupsInside)
  refine ⟨⟨?_, inside, ?_, fieldRun, groupRun, varDataRun, fieldsEnd, groupsEnd, varDataEnd⟩, ?_⟩
  · rw [length]
    exact Nat.le_add_right _ _
  · refine extract_eq_of_append whole ?_
    rw [length, Body.size, List.length_append, List.length_append]
  · intro found opening visits
    rcases fieldsVisited _ found opening visits with fits | visits
    · exact fits
    rcases groupsVisited _ found opening visits with fits | visits
    · exact fits
    rcases varDataVisited _ found opening visits with fits | visits
    · exact fits
    · cases visits

/-- Three scans of which one fails have come to an opening token that stops them. -/
theorem decompose_eq_error {tokens : List Token} {index : Nat} {halt : Halt SchemaError}
    (failed : decompose tokens index = .error halt) (inside : index ≤ tokens.length) :
    ∃ found opening, Visits tokens.length bodySignals index (tokens.drop index) found opening ∧
      opening.Stops found tokens.length halt := by
  unfold decompose at failed
  rcases Outcome.bind_eq_error_iff.mp failed with first | ⟨⟨fields, afterFields⟩, first, failed⟩
  · exact collect_error (collectAt_eq_error first inside) (add_length_drop inside) _
  obtain ⟨_, fieldsInside, _⟩ := collectAt_append first
  obtain ⟨_, first, rfl⟩ := collectAt_eq_ok_iff.mp first
  rcases Outcome.bind_eq_error_iff.mp failed with second | ⟨⟨groups, afterGroups⟩, second, failed⟩
  · obtain ⟨found, opening, visits, stops⟩ := collect_error (collectAt_eq_error second fieldsInside)
      (add_length_drop fieldsInside) [.beginVarData]
    exact ⟨found, opening, visits_of_collect first (add_length_drop inside) visits, stops⟩
  obtain ⟨_, groupsInside, _⟩ := collectAt_append second
  obtain ⟨_, second, rfl⟩ := collectAt_eq_ok_iff.mp second
  rcases Outcome.bind_eq_error_iff.mp failed with third | ⟨⟨varData, next⟩, third, failed⟩
  · obtain ⟨found, opening, visits, stops⟩ := collect_error (collectAt_eq_error third groupsInside)
      (add_length_drop groupsInside) []
    have fromGroups := visits_of_collect second (add_length_drop fieldsInside) visits
    exact ⟨found, opening, visits_of_collect first (add_length_drop inside) fromGroups, stops⟩
  · cases failed

/-- Decomposition of any stream, from any index. It gives a body whose runs partition what it takes,
and then everything it came to fits. Otherwise the index is past the end, or an opening token that
the scans came to has a count below two or reaches past the end, and stops them. -/
theorem decompose_partitions (tokens : List Token) (index : Nat) :
    match decompose tokens index with
    | .ok body => body.Partitions tokens index ∧
        ∀ (found : Nat) (opening : Token),
          Visits tokens.length bodySignals index (tokens.drop index) found opening →
            opening.Fits found tokens.length
    | .error halt => tokens.length < index ∧ halt = .fault ∨
        index ≤ tokens.length ∧ ∃ found opening,
          tokens[found]? = some opening ∧
          Visits tokens.length bodySignals index (tokens.drop index) found opening ∧
          opening.Stops found tokens.length halt ∧
          (tokens.length < wordBound → ¬ opening.Fits found tokens.length) := by
  split
  · next body found => exact decompose_eq_ok found
  · next halt failed =>
    by_cases past : tokens.length < index
    · left
      unfold decompose collectAt at failed
      rw [if_pos past] at failed
      cases failed
      exact ⟨past, rfl⟩
    · right
      have inside : index ≤ tokens.length := Nat.not_lt.mp past
      obtain ⟨found, opening, visits, stops⟩ := decompose_eq_error failed inside
      exact ⟨inside, found, opening, visits.getElem?_eq rfl, visits, stops, stops.not_fits⟩

-- the group counts one token more than there are
example : decompose [{ signal := .beginField, name := "f", componentTokenCount := 2 },
      { signal := .endField, name := "f" },
      { signal := .beginGroup, name := "g", componentTokenCount := 2 }] 0 =
    .error (.refused (.unbalanced "g" .beginGroup 2 (.tooLong 2 3))) := by cbv

end Layout

end Sbe
