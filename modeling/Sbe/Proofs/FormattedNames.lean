import Sbe.Proofs.SnakeCase

/-!
**Formatted names.**

An accessor gets its name in snake case and a type in pascal case, with the configured token behind
a reserved word. Both start from an identifier. In snake case it stays one. In pascal case it loses
its underscores, and with them what keeps a digit from being the first character. A token can make
one reserved word of another.

* `lower_of_continues`, `upper_of_continues`: letter case inside identifiers;
* `isIdentifier_snakeCase`, `isSpelled_snakeCase`: snake case;
* `exists_pascalCase`, `continuesIdentifier_of_mem_pascalCase`: pascal case;
* `isReserved_append_iff`: reserved words with a token behind them;
* `formatted_name_iff`: what becomes of an identifier.
-/

namespace Sbe.Name

open Sbe.Text

/-! ### Characters of identifiers -/

section

variable {character : Char} (continues : continuesIdentifier character = true)

include continues

theorem toNat_lt_of_continues : character.toNat < 128 := by
  rcases Bool.or_eq_true_iff.mp continues with alphanumeric | underscore
  · rcases Bool.or_eq_true_iff.mp alphanumeric with letter | digit
    · rcases Bool.or_eq_true_iff.mp letter with capital | small
      · have range : 65 ≤ character.toNat ∧ character.toNat ≤ 90 := of_decide_eq_true capital
        omega
      · have greatest : character.toNat ≤ 122 := of_decide_eq_true (Bool.and_eq_true_iff.mp small).2
        omega
    · have greatest : character.toNat ≤ 57 := (Char.isDigit_iff_toNat.mp digit).2
      omega
  · rw [beq_iff_eq.mp underscore]
    decide

theorem lower_of_continues : lower character = [character.toLower] :=
  lower_ascii (toNat_lt_of_continues continues)

theorem upper_of_continues : upper character = [character.toUpper] :=
  upper_ascii (toNat_lt_of_continues continues)

/-- Lower and upper case of a character that can stand in an identifier. -/
theorem identifier_case :
    (continuesIdentifier character.toLower = true ∧
      startsIdentifier character.toLower = startsIdentifier character) ∧
    continuesIdentifier character.toUpper = true ∧ character.toUpper.isAlpha = character.isAlpha ∧
      character.toUpper.isLower = false := by
  have each := of_ascii (fun character => !continuesIdentifier character ||
    (continuesIdentifier character.toLower &&
      startsIdentifier character.toLower == startsIdentifier character) &&
    (continuesIdentifier character.toUpper && character.toUpper.isAlpha == character.isAlpha &&
      character.toUpper.isLower == false)) (by decide +kernel) (toNat_lt_of_continues continues)
  simpa only [continues, Bool.not_true, Bool.false_or, Bool.and_eq_true, beq_iff_eq, and_assoc]
    using each

theorem continuesIdentifier_toLower : continuesIdentifier character.toLower = true :=
  (identifier_case continues).1.1

theorem continuesIdentifier_toUpper : continuesIdentifier character.toUpper = true :=
  (identifier_case continues).2.1

theorem isAlpha_toUpper : character.toUpper.isAlpha = character.isAlpha :=
  (identifier_case continues).2.2.1

theorem isLower_toUpper : character.toUpper.isLower = false :=
  (identifier_case continues).2.2.2

end

theorem startsIdentifier_toLower {character : Char} (starts : startsIdentifier character = true) :
    startsIdentifier character.toLower = true :=
  (identifier_case (continuesIdentifier_of_starts starts)).1.2.trans starts

theorem isIdentifier_of_cons {name : String} {first : Char} {rest : List Char}
    (characters : name.toList = first :: rest) (starts : startsIdentifier first = true)
    (continues : ∀ character ∈ rest, continuesIdentifier character = true) :
    isIdentifier name = true := by
  rw [isIdentifier, characters]
  exact Bool.and_eq_true_iff.mpr ⟨starts, List.all_eq_true.mpr continues⟩

theorem exists_of_isIdentifier {name : String} (identifier : isIdentifier name = true) :
    ∃ first rest, name.toList = first :: rest ∧ startsIdentifier first = true ∧
      ∀ character ∈ rest, continuesIdentifier character = true := by
  unfold isIdentifier at identifier
  split at identifier
  · cases identifier
  · next first rest characters =>
    obtain ⟨starts, continues⟩ := Bool.and_eq_true_iff.mp identifier
    exact ⟨first, rest, characters, starts, List.all_eq_true.mp continues⟩

/-! ### Snake case -/

theorem isAscii_of_isIdentifier {name : String} (identifier : isIdentifier name = true) :
    IsAscii name :=
  fun _ member =>
    Nat.le_of_lt_succ (toNat_lt_of_continues (continuesIdentifier_of_mem identifier member))

section

variable {name : String} (identifier : isIdentifier name = true)

include identifier

theorem continuesIdentifier_of_mem_snakeCase {made : Char}
    (member : made ∈ (snakeCase name).toList) : continuesIdentifier made = true := by
  rw [toList_snakeCase (isAscii_of_isIdentifier identifier)] at member
  rcases mem_separate member with rfl | kept
  · decide
  · rw [map_snd_marksAfter] at kept
    obtain ⟨character, inside, rfl⟩ := List.mem_map.mp kept
    exact continuesIdentifier_toLower (continuesIdentifier_of_mem identifier inside)

/-- An identifier in snake case is an identifier: there is no underscore before a capital at its
start. -/
theorem isIdentifier_snakeCase : isIdentifier (snakeCase name) = true := by
  obtain ⟨first, rest, characters, starts, _⟩ := exists_of_isIdentifier identifier
  have shape : (snakeCase name).toList =
      first.toLower :: separate (marksAfter (some first) rest) := by
    rw [toList_snakeCase (isAscii_of_isIdentifier identifier), characters, marksAfter, startsWord,
      Bool.and_false]
    rfl
  refine isIdentifier_of_cons shape (startsIdentifier_toLower starts) fun made member => ?_
  refine continuesIdentifier_of_mem_snakeCase identifier ?_
  rw [shape]
  exact List.mem_cons_of_mem _ member

theorem isSpelled_snakeCase : IsSpelled (snakeCase name) ↔ IsSpelled name := by
  have ascii := isAscii_of_isIdentifier identifier
  rw [isSpelled_iff_filter, isSpelled_iff_filter, filter_snakeCase ascii, letters_eq_map ascii, Ne,
    List.map_eq_nil_iff]

end

/-! ### Pascal case -/

/-- The words of a name start with the open word, up to the next underscore. -/
theorem exists_wordsFrom (word characters : List Char) :
    ∃ others, wordsFrom word characters =
      (word.reverse ++ characters.takeWhile (· != '_')) :: others := by
  induction characters generalizing word with
  | nil => exact ⟨[], by simp [wordsFrom]⟩
  | cons character rest ih =>
    rw [wordsFrom]
    by_cases underscore : character = '_'
    · exact ⟨wordsFrom [] rest, by simp [underscore]⟩
    · obtain ⟨others, words⟩ := ih (character :: word)
      refine ⟨others, ?_⟩
      rw [if_neg underscore, words]
      simp [underscore]

/-- The words of a name that are not empty start with its first character besides underscores. -/
theorem exists_filter_wordsFrom {characters : List Char} {first : Char}
    (found : characters.find? (· != '_') = some first) :
    ∃ rest others, (wordsFrom [] characters).filter (fun word => !word.isEmpty) =
      (first :: rest) :: others := by
  induction characters with
  | nil => cases found
  | cons character rest ih =>
    by_cases underscore : character = '_'
    · rw [List.find?_cons_of_neg (by simp [underscore])] at found
      obtain ⟨more, others, words⟩ := ih found
      refine ⟨more, others, ?_⟩
      rw [wordsFrom, if_pos underscore]
      exact words
    · rw [List.find?_cons_of_pos (by simp [underscore])] at found
      cases found
      obtain ⟨others, words⟩ := exists_wordsFrom [first] rest
      refine ⟨rest.takeWhile (· != '_'), others.filter fun word => !word.isEmpty, ?_⟩
      rw [wordsFrom, if_neg underscore, words]
      rfl

theorem filter_wordsFrom_of_blank {characters : List Char}
    (blank : characters.find? (· != '_') = none) :
    (wordsFrom [] characters).filter (fun word => !word.isEmpty) = [] := by
  induction characters with
  | nil => rfl
  | cons character rest ih =>
    obtain ⟨underscore, later⟩ := List.forall_mem_cons.mp (List.find?_eq_none.mp blank)
    have same : character = '_' := by simpa using underscore
    rw [wordsFrom, if_pos same]
    exact ih (List.find?_eq_none.mpr later)

/-- A name in pascal case starts with the upper form of its first character besides underscores. -/
theorem exists_pascalCase {name : String} {first : Char}
    (found : name.toList.find? (· != '_') = some first) :
    ∃ rest, (pascalCase name).toList = upper first ++ rest := by
  rw [pascalCase, String.toList_ofList]
  split
  · obtain ⟨rest, others, words⟩ := exists_filter_wordsFrom found
    rw [words, List.flatMap_cons, capitalize, List.append_assoc]
    exact ⟨_, rfl⟩
  · next single =>
    cases characters : name.toList with
    | nil =>
      rw [characters] at found
      cases found
    | cons character rest =>
      have other : character ≠ '_' := by
        rintro rfl
        simp [characters] at single
      rw [characters, List.find?_cons_of_pos (by simp [other])] at found
      cases found
      exact ⟨_, rfl⟩

theorem pascalCase_of_blank {name : String} (blank : name.toList.find? (· != '_') = none) :
    pascalCase name = "" := by
  rw [← String.toList_inj, pascalCase, String.toList_ofList]
  split
  · rw [filter_wordsFrom_of_blank blank]
    rfl
  · next single =>
    cases characters : name.toList with
    | nil => rfl
    | cons character rest =>
      rw [characters] at blank single
      have underscore : character = '_' := by
        simpa using List.find?_eq_none.mp blank character List.mem_cons_self
      simp [underscore] at single

theorem continuesIdentifier_of_mem_lowerAfter {before characters : List Char}
    (continues : ∀ character ∈ characters, continuesIdentifier character = true) {made : Char}
    (member : made ∈ lowerAfter before characters) : continuesIdentifier made = true := by
  induction characters generalizing before with
  | nil => cases member
  | cons character rest ih =>
    obtain ⟨first, later⟩ := List.forall_mem_cons.mp continues
    have other : character ≠ 'Σ' := by
      rintro rfl
      exact absurd first (by decide)
    rw [lowerAfter, if_neg other, lower_of_continues first] at member
    rcases List.mem_cons.mp member with rfl | after
    · exact continuesIdentifier_toLower first
    · exact ih later after

theorem continuesIdentifier_of_mem_capitalize {word : List Char}
    (continues : ∀ character ∈ word, continuesIdentifier character = true) {lowerRest : Bool}
    {made : Char} (member : made ∈ capitalize lowerRest word) :
    continuesIdentifier made = true := by
  cases word with
  | nil => cases member
  | cons first rest =>
    obtain ⟨one, later⟩ := List.forall_mem_cons.mp continues
    rw [capitalize, upper_of_continues one] at member
    rcases List.mem_cons.mp member with rfl | after
    · exact continuesIdentifier_toUpper one
    · split at after
      · exact continuesIdentifier_of_mem_lowerAfter later after
      · exact later made after

theorem continuesIdentifier_of_mem_pascalCase {name : String}
    (identifier : isIdentifier name = true) {made : Char}
    (member : made ∈ (pascalCase name).toList) : continuesIdentifier made = true := by
  rw [pascalCase, String.toList_ofList] at member
  split at member
  · obtain ⟨word, found, inside⟩ := List.mem_flatMap.mp member
    refine continuesIdentifier_of_mem_capitalize (fun character belongs => ?_) inside
    rcases mem_of_mem_wordsFrom (List.mem_filter.mp found).1 belongs with none | kept
    · cases none
    · exact continuesIdentifier_of_mem identifier kept.1
  · exact continuesIdentifier_of_mem_capitalize (fun _ => continuesIdentifier_of_mem identifier)
      member

/-! ### Reserved words -/

/-- Words and their characters. -/
inductive Spells : List String → List (List Char) → Prop where
  | nil : Spells [] []
  | cons {words : List String} {spelled : List (List Char)} (characters : List Char)
    (later : Spells words spelled) : Spells (String.ofList characters :: words)
    (characters :: spelled)

theorem Spells.map_toList {words : List String} {spelled : List (List Char)}
    (spells : Spells words spelled) : words.map String.toList = spelled := by
  induction spells with
  | nil => rfl
  | cons characters _ ih => rw [List.map_cons, String.toList_ofList, ih]

/-- Reserved words with another one at their start, as that one and the rest. -/
def joinedWords : List (String × String) := [("as", "ync"), ("type", "of")]

/-- Words of letters, all but one with a small letter first, of which one starts with another only
where they are joined. -/
def isWellSpelled (spelled : List (List Char)) : Bool :=
  spelled.all fun word => word.all Char.isAlpha &&
    (word == ['S', 'e', 'l', 'f'] || word.head?.any Char.isLower) &&
    spelled.all fun other => !word.isPrefixOf other || word == other ||
      joinedWords.any fun joined => word == joined.1.toList && other == word ++ joined.2.toList

theorem isWellSpelled_reservedWords : isWellSpelled (reservedWords.map String.toList) = true := by
  obtain ⟨spelled, spells,
      passed⟩ : ∃ spelled, Spells reservedWords spelled ∧ isWellSpelled spelled = true :=
    ⟨_, by repeat' constructor, by decide +kernel⟩
  rwa [spells.map_toList]

theorem isReserved_joinedWords :
    ∀ joined ∈ joinedWords, isReserved joined.1 = true ∧
      isReserved (joined.1 ++ joined.2) = true := by
  simp [joinedWords, isReserved, reservedWords]

theorem isReserved_of_joined {word token : String} (joined : (word, token) ∈ joinedWords) :
    isReserved word = true :=
  (isReserved_joinedWords _ joined).1

section

variable {word : String} (reserved : isReserved word = true)

include reserved

theorem wellSpelled_of_isReserved :
    (∀ character ∈ word.toList, character.isAlpha = true) ∧
      (word = "Self" ∨ word.toList.head?.any Char.isLower = true) ∧
      ∀ other, isReserved other = true → word.toList <+: other.toList →
        word = other ∨ ∃ joined ∈ joinedWords, word = joined.1 ∧ other = word ++ joined.2 := by
  have inside : word.toList ∈ reservedWords.map String.toList :=
    List.mem_map_of_mem (List.contains_iff_mem.mp reserved)
  have spelled := List.all_eq_true.mp isWellSpelled_reservedWords _ inside
  rw [Bool.and_eq_true, Bool.and_eq_true, Bool.or_eq_true, beq_iff_eq] at spelled
  obtain ⟨⟨letters, start⟩, prefixes⟩ := spelled
  refine ⟨List.all_eq_true.mp letters, start.imp_left fun same => ?_,
    fun other otherReserved starts => ?_⟩
  · exact String.toList_inj.mp same
  · have otherInside : other.toList ∈ reservedWords.map String.toList :=
      List.mem_map_of_mem (List.contains_iff_mem.mp otherReserved)
    have pair := List.all_eq_true.mp prefixes _ otherInside
    rw [List.isPrefixOf_iff_prefix.mpr starts, Bool.not_true, Bool.false_or, Bool.or_eq_true,
      beq_iff_eq, List.any_eq_true] at pair
    refine pair.imp String.toList_inj.mp ?_
    rintro ⟨joined, member, same⟩
    rw [Bool.and_eq_true, beq_iff_eq, beq_iff_eq, ← String.toList_append] at same
    exact ⟨joined, member, String.toList_inj.mp same.1, String.toList_inj.mp same.2⟩

/-- A reserved word with a token behind it is reserved only where the two are joined. -/
theorem isReserved_append_iff {token : String} (filled : token ≠ "") :
    isReserved (word ++ token) = true ↔ (word, token) ∈ joinedWords := by
  constructor
  · intro appended
    have starts : word.toList <+: (word ++ token).toList := by
      rw [String.toList_append]
      exact List.prefix_append _ _
    rcases (wellSpelled_of_isReserved reserved).2.2 _ appended starts
      with same | ⟨joined, member, rfl, rest⟩
    · have empty : word.toList ++ [] = word.toList ++ token.toList := by
        rw [← String.toList_append, ← same, List.append_nil]
      exact absurd (String.toList_inj.mp (List.append_cancel_left empty).symm) filled
    · have tail : token.toList = joined.2.toList := by
        have whole := congrArg String.toList rest
        rw [String.toList_append, String.toList_append] at whole
        exact List.append_cancel_left whole
      rwa [String.toList_inj.mp tail]
  · intro member
    exact (isReserved_joinedWords _ member).2

end

/-! ### Formatted names -/

/-- Whether the first character of a name besides underscores is a letter. -/
def startsWithLetter (name : String) : Bool := (name.toList.find? (· != '_')).any Char.isAlpha

theorem not_isSpelled_empty : ¬ IsSpelled "" := by
  rintro ⟨character, member, _⟩
  cases member

theorem isSpelled_of_isReserved {word : String} (reserved : isReserved word = true) :
    IsSpelled word := by
  obtain ⟨letters, start, _⟩ := wellSpelled_of_isReserved reserved
  rcases start with rfl | small
  · exact ⟨'S', by simp, by decide⟩
  · obtain ⟨first, found, _⟩ := (Option.any_eq_true _ _).mp small
    have inside := List.mem_of_head? found
    refine ⟨first, inside, ?_⟩
    rintro rfl
    exact absurd (letters _ inside) (by decide)

theorem isIdentifier_of_isReserved {word : String} (reserved : isReserved word = true) :
    isIdentifier word = true := by
  obtain ⟨letters, _, _⟩ := wellSpelled_of_isReserved reserved
  have starts {character : Char} (letter : character.isAlpha = true) : startsIdentifier character =
      true := by
    rw [startsIdentifier, letter, Bool.true_or]
  cases characters : word.toList with
  | nil =>
    obtain ⟨_, member, _⟩ := isSpelled_of_isReserved reserved
    rw [characters] at member
    cases member
  | cons first rest =>
    rw [characters] at letters
    obtain ⟨one, later⟩ := List.forall_mem_cons.mp letters
    exact isIdentifier_of_cons characters (starts one) fun character member =>
      continuesIdentifier_of_starts (starts (later character member))

theorem isIdentifier_append {name token : String} (identifier : isIdentifier name = true)
    (continues : ∀ character ∈ token.toList, continuesIdentifier character = true) :
    isIdentifier (name ++ token) = true := by
  obtain ⟨first, rest, characters, starts, inside⟩ := exists_of_isIdentifier identifier
  have shape : (name ++ token).toList = first :: (rest ++ token.toList) := by
    rw [String.toList_append, characters]
    rfl
  refine isIdentifier_of_cons shape starts fun character member => ?_
  rcases List.mem_append.mp member with before | after
  · exact inside character before
  · exact continues character after

theorem IsSpelled.append {name : String} (spelled : IsSpelled name) (token : String) :
    IsSpelled (name ++ token) := by
  obtain ⟨character, member, other⟩ := spelled
  refine ⟨character, ?_, other⟩
  rw [String.toList_append]
  exact List.mem_append_left _ member

/-- Only one reserved word is a name in pascal case: the others start with small letters. -/
theorem pascalCase_eq_of_isReserved {name : String} (identifier : isIdentifier name = true)
    (reserved : isReserved (pascalCase name) = true) : pascalCase name = "Self" := by
  cases found : name.toList.find? (· != '_') with
  | none =>
    rw [pascalCase_of_blank found] at reserved
    exact absurd (isSpelled_of_isReserved reserved) not_isSpelled_empty
  | some first =>
    have continues := continuesIdentifier_of_mem identifier (List.mem_of_find?_eq_some found)
    obtain ⟨rest, shape⟩ := exists_pascalCase found
    rw [upper_of_continues continues] at shape
    have start := (wellSpelled_of_isReserved reserved).2.1
    rw [shape] at start
    refine start.resolve_right ?_
    simp [isLower_toUpper continues]

theorem isSpelled_iff {name : String} :
    IsSpelled name ↔ ∃ first, name.toList.find? (· != '_') = some first := by
  rw [← Option.isSome_iff_exists, List.find?_isSome]
  simp [IsSpelled]

/-- A name in pascal case is an identifier exactly when the first character of the name besides
underscores is a letter, and has a character besides underscores exactly when the name has. -/
theorem pascalCase_iff {name : String} (identifier : isIdentifier name = true) :
    (isIdentifier (pascalCase name) = true ↔ startsWithLetter name = true) ∧
      (IsSpelled (pascalCase name) ↔ IsSpelled name) := by
  have spelled : IsSpelled name ↔ ∃ first, name.toList.find? (· != '_') = some first :=
    isSpelled_iff
  rw [startsWithLetter, spelled]
  cases found : name.toList.find? (· != '_') with
  | none =>
    rw [pascalCase_of_blank found]
    exact ⟨by simp [isIdentifier], iff_of_false not_isSpelled_empty (by simp)⟩
  | some first =>
    have continues := continuesIdentifier_of_mem identifier (List.mem_of_find?_eq_some found)
    obtain ⟨rest, shape⟩ := exists_pascalCase found
    rw [upper_of_continues continues, List.singleton_append] at shape
    have inside : first.toUpper ∈ (pascalCase name).toList := by simp [shape]
    have other : first.toUpper ≠ '_' :=
      fun same => underscore_not_mem_pascalCase name (same ▸ inside)
    have starts : startsIdentifier first.toUpper = first.isAlpha := by
      rw [startsIdentifier, isAlpha_toUpper continues, beq_eq_false_iff_ne.mpr other, Bool.or_false]
    refine ⟨⟨fun formatted => ?_, fun letter => ?_⟩, iff_of_true ⟨_, inside, other⟩ ⟨first, rfl⟩⟩
    · rw [isIdentifier, shape] at formatted
      exact starts.symm.trans (Bool.and_eq_true_iff.mp formatted).1
    · refine isIdentifier_of_cons shape (starts.trans letter) fun character member => ?_
      refine continuesIdentifier_of_mem_pascalCase identifier ?_
      rw [shape]
      exact List.mem_cons_of_mem _ member

end Sbe.Name

namespace Sbe.Settings

open Sbe.Name

/-- Settings whose token, if there is one, can stand inside an identifier. -/
def Appendable (settings : Settings) : Prop :=
  ∀ token ∈ settings.keywordAppendToken, token ≠ "" ∧
    ∀ character ∈ token.toList, continuesIdentifier character = true

variable {settings : Settings}

/-- A formatted name that is reserved was so before, and the token completes another reserved
word. -/
theorem isReserved_escape_iff (appendable : settings.Appendable) {formatted name escaped : String}
    (done : settings.escape formatted name = .ok escaped) :
    isReserved escaped = true ↔
    ∃ token ∈ settings.keywordAppendToken, (formatted, token) ∈ joinedWords := by
  rcases escape_yields settings formatted name escaped done
    with ⟨free, rfl⟩ | ⟨reserved, token, given, rfl⟩
  · rw [free]
    refine iff_of_false Bool.false_ne_true ?_
    rintro ⟨token, _, joined⟩
    rw [isReserved_of_joined joined] at free
    cases free
  · rw [isReserved_append_iff reserved (appendable token given).1]
    refine ⟨fun joined => ⟨token, given, joined⟩, ?_⟩
    rintro ⟨other, otherGiven, joined⟩
    rwa [Option.mem_unique given otherGiven]

/-- The token changes neither whether a formatted name is an identifier nor whether it has a
character besides underscores. -/
theorem escape_iff (appendable : settings.Appendable) {formatted name escaped : String}
    (done : settings.escape formatted name = .ok escaped) :
    (isIdentifier escaped = true ↔ isIdentifier formatted = true) ∧
      (IsSpelled escaped ↔ IsSpelled formatted) := by
  rcases escape_yields settings formatted name escaped done
    with ⟨_, rfl⟩ | ⟨reserved, token, given, rfl⟩
  · exact ⟨.rfl, .rfl⟩
  · have identifier := isIdentifier_of_isReserved reserved
    have spelled := isSpelled_of_isReserved reserved
    exact ⟨iff_of_true (isIdentifier_append identifier (appendable token given).2) identifier,
      iff_of_true (spelled.append token) spelled⟩

/-- **Formatted names.** For an identifier and a token that can stand inside one, the name of an
accessor is an identifier, has a character besides underscores exactly when the name has, and is a
reserved word only where the token completes one of another. The name of a type is an identifier
exactly when the first character of the name besides underscores is a letter, has a character
besides underscores exactly when the name has, and is never a reserved word. -/
theorem formatted_name_iff (appendable : settings.Appendable) {name : String}
    (identifier : isIdentifier name = true) (formatted : String) :
    (settings.propertyName name = .ok formatted →
      isIdentifier formatted = true ∧ (IsSpelled formatted ↔ IsSpelled name) ∧
      (isReserved formatted = true ↔
        ∃ token ∈ settings.keywordAppendToken, (snakeCase name, token) ∈ joinedWords)) ∧
    (settings.typeName name = .ok formatted →
      (isIdentifier formatted = true ↔ startsWithLetter name = true) ∧
      (IsSpelled formatted ↔ IsSpelled name) ∧ isReserved formatted = false) := by
  constructor
  · intro done
    obtain ⟨kept, spelled⟩ := escape_iff appendable done
    exact ⟨kept.mpr (isIdentifier_snakeCase identifier),
      spelled.trans (isSpelled_snakeCase identifier), isReserved_escape_iff appendable done⟩
  · intro done
    obtain ⟨kept, spelled⟩ := escape_iff appendable done
    obtain ⟨starts, pascal⟩ := pascalCase_iff identifier
    refine ⟨kept.trans starts, spelled.trans pascal, ?_⟩
    rw [← Bool.not_eq_true, isReserved_escape_iff appendable done]
    rintro ⟨token, _, joined⟩
    -- The only reserved word in pascal case starts no other.
    rw [pascalCase_eq_of_isReserved identifier (isReserved_of_joined joined)] at joined
    simp [joinedWords] at joined

/-- Reserved words in both forms, with a token that completes no other. -/
theorem reserved_names_formatted :
    ({ keywordAppendToken := some "_x1" } : Settings).Appendable ∧
    (isIdentifier "Type" = true ∧
      ({ keywordAppendToken := some "_x1" } : Settings).propertyName "Type" = .ok "type_x1" ∧
      isIdentifier "type_x1" = true ∧ IsSpelled "type_x1" ∧ isReserved "type_x1" = false) ∧
    (isIdentifier "_Self" = true ∧
      ({ keywordAppendToken := some "_x1" } : Settings).typeName "_Self" = .ok "Self_x1" ∧
      isIdentifier "Self_x1" = true ∧ IsSpelled "Self_x1" ∧ isReserved "Self_x1" = false) := by
  have appendable : ({ keywordAppendToken := some "_x1" } : Settings).Appendable := by
    intro token given
    cases given
    exact ⟨by decide, List.all_eq_true.mp (by decide +kernel)⟩
  have first : isIdentifier "Type" = true := by decide +kernel
  have second : isIdentifier "_Self" = true := by decide +kernel
  have property : ({ keywordAppendToken := some "_x1" } : Settings).propertyName "Type" =
      .ok "type_x1" := by
    decide +kernel
  have type : ({ keywordAppendToken := some "_x1" } : Settings).typeName "_Self" =
      .ok "Self_x1" := by
    decide +kernel
  obtain ⟨identifier, spelled, reserved⟩ := (formatted_name_iff appendable first _).1 property
  obtain ⟨typeIdentifier, typeSpelled, typeFree⟩ := (formatted_name_iff appendable second _).2 type
  refine ⟨appendable, ⟨first, property, identifier, spelled.mpr ⟨'T', by simp, by decide⟩, ?_⟩,
    second, type, typeIdentifier.mpr (by decide +kernel), typeSpelled.mpr ⟨'S', by simp, by decide⟩,
    typeFree⟩
  rw [← Bool.not_eq_true, reserved]
  rintro ⟨token, given, joined⟩
  cases given
  exact absurd joined (by decide +kernel)

/-- An identifier that loses the underscore before its digit gives a type name that is no
identifier, underscores alone give names without another character, and a token can make one
reserved word of another. -/
theorem formatted_names_unusable :
    (isIdentifier "_1" = true ∧ ({} : Settings).typeName "_1" = .ok "1" ∧
      isIdentifier "1" = false) ∧
    (isIdentifier "_" = true ∧ ({} : Settings).propertyName "_" = .ok "_" ∧ ¬ IsSpelled "_" ∧
      ({} : Settings).typeName "_" = .ok "" ∧ isIdentifier "" = false) ∧
    (isIdentifier "as" = true ∧
      ({ keywordAppendToken := some "ync" } : Settings).propertyName "as" = .ok "async" ∧
      isReserved "async" = true) := by
  refine ⟨by decide +kernel,
    ⟨by decide +kernel, by decide +kernel, ?_, by decide +kernel, by decide +kernel⟩,
    by decide +kernel⟩
  rintro ⟨character, member, other⟩
  exact other (by simpa using member)

end Sbe.Settings
