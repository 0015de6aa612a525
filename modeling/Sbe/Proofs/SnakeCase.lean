import Mathlib.Data.List.Chain
import Sbe.Proofs.Charset
import Sbe.Proofs.PlainText

/-!
**Snake case.**

A name of seven bits in snake case has the characters of the name in lower case, with an underscore
put before the capitals that start a word. Whether a capital does depends on its two neighbours in
the name, and not on what was put before them, so the marks can be set first and the underscores put
in afterwards. Everything else follows from the marks. Names with the same unit have the same
letters. Names with the same accessor have too, unless the token behind a reserved word completes
the other name.

* `of_ascii`, `casedAsLetter_of_ascii`: characters of seven bits;
* `marksAfter`, `Marks`: where underscores are put;
* `snakeAfter_eq_separate`: snake case by marks;
* `snakeAfter_of_small`: what is without capitals stays as it is;
* `filter_snakeCase`: case and underscores apart, nothing changes;
* `letters_eq_or_completes`: names with one accessor;
* `snakeCase_separates`: snake case, unit names and accessor names.
-/

namespace Sbe.Text

/-- What holds of all ASCII characters, by evaluation. -/
theorem of_ascii (test : Char → Bool)
    (passed : ((List.range 128).all fun code => test (.ofNat code)) = true) {character : Char}
    (ascii : character.toNat < 128) : test character = true := by
  have inside := List.all_eq_true.mp passed character.toNat (List.mem_range.mpr ascii)
  rwa [Char.ofNat_toNat] at inside

/-- Where no character of seven bits is mapped to a sequence, one is mapped to its image. -/
theorem mapCase_ascii {sequences : List (Nat × List Nat)} {images : List Run}
    (beyond : (sequences.all fun entry => decide (128 ≤ entry.1)) = true) {character : Char}
    (ascii : character.toNat < 128) : mapCase sequences images character =
      [((imageIn images character.toNat).map Char.ofNat).getD character] := by
  have absent : sequences.lookup character.toNat = none := by
    rw [List.lookup_eq_none_iff]
    intro entry member
    have large : 128 ≤ entry.1 := of_decide_eq_true (List.all_eq_true.mp beyond entry member)
    have other : character.toNat ≠ entry.1 := by omega
    exact bne_iff_ne.mpr other
  rw [mapCase, absent]
  cases imageIn images character.toNat <;> rfl

/-- The tables of letter case agree on a character with the letters `A` to `Z`. -/
structure CasedAsLetter (character : Char) : Prop where
  lower : lower character = [character.toLower]
  upper : upper character = [character.toUpper]
  isUpper : isUpper character = character.isUpper
  isLower : isLower character = character.isLower
  lowered : Text.isUpper character.toLower = false
  kept : Text.isUpper character = true ∨ character.toLower = character

theorem casedAsLetter_of_ascii {character : Char} (ascii : character.toNat < 128) :
    CasedAsLetter character := by
  -- The tables are read for all these characters and all facts at once.
  have each := of_ascii (fun character =>
    ((imageIn Letter.pairs character.toNat).map Char.ofNat).getD character == character.toLower &&
      ((imageIn (Letter.pairs.map Run.swap) character.toNat).map Char.ofNat).getD character ==
        character.toUpper &&
      isUpper character == character.isUpper && isLower character == character.isLower &&
      isUpper character.toLower == false && (isUpper character || character.toLower == character))
    (by decide +kernel) ascii
  simp only [Bool.and_eq_true, Bool.or_eq_true, beq_iff_eq, and_assoc] at each
  obtain ⟨toLower, toUpper, capital, small, lowered, kept⟩ := each
  have beyond :
      (Letter.toLowerAlone ++ Letter.toUpperAlone).all (fun entry => decide (128 ≤ entry.1)) =
        true := by
    decide +kernel
  rw [List.all_append, Bool.and_eq_true] at beyond
  refine ⟨?_, ?_, capital, small, lowered, kept⟩
  · rw [lower, mapCase_ascii beyond.1 ascii, toLower]
  · rw [upper, mapCase_ascii beyond.2 ascii, toUpper]

theorem lower_ascii {character : Char} (ascii : character.toNat < 128) :
    lower character = [character.toLower] :=
  (casedAsLetter_of_ascii ascii).lower

theorem upper_ascii {character : Char} (ascii : character.toNat < 128) :
    upper character = [character.toUpper] :=
  (casedAsLetter_of_ascii ascii).upper

section

variable {character : Char} (ascii : character.toNat ≤ 0x7f)

include ascii

theorem isUpper_ascii : isUpper character = character.isUpper :=
  (casedAsLetter_of_ascii (Nat.lt_succ_of_le ascii)).isUpper

theorem isLower_ascii : isLower character = character.isLower :=
  (casedAsLetter_of_ascii (Nat.lt_succ_of_le ascii)).isLower

theorem isUpper_toLower : isUpper character.toLower = false :=
  (casedAsLetter_of_ascii (Nat.lt_succ_of_le ascii)).lowered

theorem toLower_of_small (small : isUpper character = false) : character.toLower = character :=
  (casedAsLetter_of_ascii (Nat.lt_succ_of_le ascii)).kept.resolve_left (Bool.eq_false_iff.mp small)

theorem toLower_ne_underscore (other : character ≠ '_') : character.toLower ≠ '_' := by
  intro same
  have mapped := lower_ascii (Nat.lt_succ_of_le ascii)
  rw [same] at mapped
  exact other (mem_lower (by decide) (mapped ▸ List.mem_singleton_self _))

end

end Sbe.Text

namespace Sbe.Name

open Sbe.Text

/-! ### Marks -/

/-- Characters with an underscore before each one that is marked. -/
def separate (marked : List (Bool × Char)) : List Char :=
  marked.flatMap fun mark => if mark.1 then ['_', mark.2] else [mark.2]

/-- Whether a word starts with a character: with a capital that is behind something other than an
underscore, and is behind no capital or before a small letter. -/
def startsBetween (before character : Char) (next : Option Char) : Bool :=
  character.isUpper && before != '_' && (!before.isUpper || next.any Char.isLower)

/-- The characters of a name in lower case, marked where an underscore is put before them. The first
is not marked, none behind an underscore is, and a mark is exactly where a word starts. -/
structure Marks (characters : List Char) (marked : List (Bool × Char)) : Prop where
  kept : marked.map Prod.snd = characters.map Char.toLower
  notFirst : ∀ mark ∈ marked.head?, mark.1 = false
  apart : marked.IsChain fun before mark => mark.1 = true → before.2 ≠ '_'
  exactly : ∀ front before character rest, characters = front ++ before :: character :: rest →
    marked[front.length + 1]?.map Prod.fst = some (startsBetween before character rest.head?)

/-- The rest of a name in lower case with its marks, given the character before it. -/
def marksAfter (before : Option Char) : List Char → List (Bool × Char)
  | [] => []
  | character :: rest =>
    (isUpper character && startsWord before rest, character.toLower) ::
      marksAfter (some character) rest

theorem map_snd_marksAfter (before : Option Char) (characters : List Char) :
    (marksAfter before characters).map Prod.snd = characters.map Char.toLower := by
  induction characters generalizing before with
  | nil => rfl
  | cons character rest ih => exact congrArg (character.toLower :: ·) (ih (some character))

theorem startsWord_some (before : Char) (after : List Char) :
    startsWord (some before) after =
      (before != '_' && (!isUpper before || after.head?.any isLower)) := by
  cases after <;> rfl

theorem ne_underscore_of_startsWord {before : Char} {after : List Char}
    (starts : startsWord (some before) after = true) : before ≠ '_' :=
  bne_iff_ne.mp (Bool.and_eq_true_iff.mp starts).1

section

variable {characters : List Char} (ascii : ∀ character ∈ characters, character.toNat ≤ 0x7f)

include ascii

/-- The mark of a character behind another. -/
theorem startsWord_eq_startsBetween {before character : Char} (small : before.toNat ≤ 0x7f)
    (characterSmall : character.toNat ≤ 0x7f) :
    (isUpper character && startsWord (some before) characters) =
      startsBetween before character characters.head? := by
  have next : characters.head?.any isLower = characters.head?.any Char.isLower := by
    cases characters with
    | nil => rfl
    | cons next rest => exact isLower_ascii (ascii next List.mem_cons_self)
  rw [startsWord_some, startsBetween, isUpper_ascii characterSmall, isUpper_ascii small, next,
    Bool.and_assoc]

theorem snakeAfter_eq_separate (before : Option Char) :
    snakeAfter before characters = separate (marksAfter before characters) := by
  induction characters generalizing before with
  | nil => rfl
  | cons character rest ih =>
    obtain ⟨first, later⟩ := List.forall_mem_cons.mp ascii
    rw [snakeAfter, marksAfter, separate, List.flatMap_cons, ← separate, ih later]
    congr 1
    cases capital : isUpper character with
    | true =>
      rw [lower_ascii (Nat.lt_succ_of_le first)]
      cases startsWord before rest <;> rfl
    | false =>
      rw [toLower_of_small first capital]
      rfl

theorem isChain_marksAfter (before : Option Char) :
    (marksAfter before characters).IsChain fun before mark => mark.1 = true → before.2 ≠ '_' := by
  induction characters generalizing before with
  | nil => exact .nil
  | cons character rest ih =>
    obtain ⟨first, later⟩ := List.forall_mem_cons.mp ascii
    refine List.isChain_cons.mpr ⟨fun mark found marked => ?_, ih later (some character)⟩
    cases rest with
    | nil => cases found
    | cons next rest =>
      cases found
      exact toLower_ne_underscore first
        (ne_underscore_of_startsWord (Bool.and_eq_true_iff.mp marked).2)

theorem marksAfter_exactly (earlier : Option Char) {front rest : List Char}
    {before character : Char} (split : characters = front ++ before :: character :: rest) :
    (marksAfter earlier characters)[front.length + 1]?.map Prod.fst =
      some (startsBetween before character rest.head?) := by
  induction front generalizing earlier characters with
  | nil =>
    subst split
    obtain ⟨first, later⟩ := List.forall_mem_cons.mp ascii
    obtain ⟨second, others⟩ := List.forall_mem_cons.mp later
    -- The mark of the second character is the one asked for.
    exact congrArg some (startsWord_eq_startsBetween others first second)
  | cons other front ih =>
    subst split
    exact ih (List.forall_mem_cons.mp ascii).2 (some other) rfl

theorem marks_marksAfter : Marks characters (marksAfter none characters) where
  kept := map_snd_marksAfter none characters
  notFirst := by
    intro mark found
    cases characters with
    | nil => cases found
    | cons character rest =>
      cases found
      exact Bool.and_false _
  apart := isChain_marksAfter ascii none
  exactly := fun _ _ _ _ split => marksAfter_exactly ascii none split

end

/-! ### Letters -/

/-- What is left of a name without case and underscores: its other characters in lower case. -/
def letters (name : String) : List Char := (name.toList.map Char.toLower).filter (· != '_')

/-- A name with a character besides underscores. -/
def IsSpelled (name : String) : Prop := ∃ character ∈ name.toList, character ≠ '_'

theorem isSpelled_iff_filter {name : String} :
    IsSpelled name ↔ name.toList.filter (· != '_') ≠ [] := by
  rw [Ne, List.filter_eq_nil_iff]
  simp [IsSpelled]

theorem filter_separate (marked : List (Bool × Char)) :
    (separate marked).filter (· != '_') = (marked.map Prod.snd).filter (· != '_') := by
  induction marked with
  | nil => rfl
  | cons mark rest ih =>
    have piece : (if mark.1 then ['_', mark.2] else [mark.2]).filter (· != '_') =
        [mark.2].filter (· != '_') := by
      cases mark.1 <;> rfl
    rw [separate, List.flatMap_cons, ← separate, List.filter_append, ih, piece,
      ← List.filter_append]
    rfl

theorem mem_separate {marked : List (Bool × Char)} {character : Char}
    (member : character ∈ separate marked) : character = '_' ∨ character ∈ marked.map Prod.snd := by
  obtain ⟨mark, inside, piece⟩ := List.mem_flatMap.mp member
  have second : mark.2 ∈ marked.map Prod.snd := List.mem_map_of_mem inside
  split at piece
  · rcases List.mem_cons.mp piece with underscore | last
    · exact .inl underscore
    · exact .inr (List.mem_singleton.mp last ▸ second)
  · exact .inr (List.mem_singleton.mp piece ▸ second)

/-- Without capitals nothing changes. -/
theorem snakeAfter_of_small {before : Option Char} {characters : List Char}
    (small : ∀ character ∈ characters, isUpper character = false) :
    snakeAfter before characters = characters := by
  induction characters generalizing before with
  | nil => rfl
  | cons character rest ih =>
    obtain ⟨first, later⟩ := List.forall_mem_cons.mp small
    rw [snakeAfter, first, ih later]
    rfl

section

variable {name : String} (ascii : IsAscii name)

include ascii

theorem toList_snakeCase : (snakeCase name).toList = separate (marksAfter none name.toList) := by
  rw [snakeCase, String.toList_ofList, snakeAfter_eq_separate ascii]

theorem isUpper_of_mem_snakeCase {character : Char} (member : character ∈ (snakeCase name).toList) :
    isUpper character = false := by
  rw [toList_snakeCase ascii] at member
  rcases mem_separate member with rfl | kept
  · exact isUpper_ascii (by decide)
  · rw [map_snd_marksAfter] at kept
    obtain ⟨original, inside, rfl⟩ := List.mem_map.mp kept
    exact isUpper_toLower (ascii original inside)

theorem filter_snakeCase : (snakeCase name).toList.filter (· != '_') = letters name := by
  rw [toList_snakeCase ascii, filter_separate, map_snd_marksAfter, letters]

/-- Lower case makes no underscores. -/
theorem letters_eq_map : letters name = (name.toList.filter (· != '_')).map Char.toLower := by
  have same : ∀ character ∈ name.toList, (character.toLower != '_') = (character != '_') := by
    intro character member
    by_cases underscore : character = '_'
    · rw [underscore]
      rfl
    · rw [bne_iff_ne.mpr underscore]
      exact bne_iff_ne.mpr (toLower_ne_underscore (ascii character member) underscore)
  rw [letters, List.filter_map]
  exact congrArg (List.map Char.toLower) (List.filter_congr same)

theorem snakeCase_snakeCase : snakeCase (snakeCase name) = snakeCase name := by
  have kept : snakeAfter none (snakeCase name).toList = (snakeCase name).toList :=
    snakeAfter_of_small fun _ => isUpper_of_mem_snakeCase ascii
  rw [snakeCase, kept, String.ofList_toList]

end

/-! ### Shared names -/

/-- One name is a reserved word, and the other is that word with a token behind it. -/
def Completes (token name other : String) : Prop :=
  isReserved (snakeCase name) = true ∧ snakeCase other = snakeCase name ++ token

theorem letters_eq_of_snakeCase {name other : String} (ascii : IsAscii name)
    (otherAscii : IsAscii other) (same : snakeCase name = snakeCase other) :
    letters name = letters other := by
  rw [← filter_snakeCase ascii, ← filter_snakeCase otherAscii, same]

/-- A token of underscores alone leaves the letters as they are. -/
theorem letters_eq_or_spelled {name other token : String} (ascii : IsAscii name)
    (otherAscii : IsAscii other) (completes : Completes token name other) :
    letters name = letters other ∨ IsSpelled token := by
  by_cases blank : token.toList.filter (· != '_') = []
  · refine .inl ?_
    rw [← filter_snakeCase ascii, ← filter_snakeCase otherAscii, completes.2, String.toList_append,
      List.filter_append, blank, List.append_nil]
  · exact .inr (isSpelled_iff_filter.mpr blank)

/-- Two names with one accessor. Only where one is reserved and the other is not can their letters
differ. -/
theorem letters_eq_or_completes {settings : Settings} {name other accessor : String}
    (ascii : IsAscii name) (otherAscii : IsAscii other)
    (named : settings.propertyName name = .ok accessor)
    (otherNamed : settings.propertyName other = .ok accessor) :
    letters name = letters other ∨
    ∃ token ∈ settings.keywordAppendToken, IsSpelled token ∧
      (Completes token name other ∨ Completes token other name) := by
  rcases settings.escape_yields _ _ _ named with ⟨_, rfl⟩ | ⟨reserved, token, given, rfl⟩
  · rcases settings.escape_yields _ _ _ otherNamed
      with ⟨_, same⟩ | ⟨otherReserved, token, given, same⟩
    · exact .inl (letters_eq_of_snakeCase ascii otherAscii same)
    · have completes : Completes token other name := ⟨otherReserved, same⟩
      exact (letters_eq_or_spelled otherAscii ascii completes).imp Eq.symm fun spelled =>
        ⟨token, given, spelled, .inr completes⟩
  · rcases settings.escape_yields _ _ _ otherNamed
      with ⟨_, same⟩ | ⟨_, otherToken, otherGiven, same⟩
    · have completes : Completes token name other := ⟨reserved, same.symm⟩
      exact (letters_eq_or_spelled ascii otherAscii completes).imp_right fun spelled =>
        ⟨token, given, spelled, .inl completes⟩
    · -- Both are reserved, and there is only one token.
      obtain rfl : token = otherToken := Option.mem_unique given otherGiven
      refine .inl (letters_eq_of_snakeCase ascii otherAscii (String.toList_inj.mp ?_))
      have characters := congrArg String.toList same
      rw [String.toList_append, String.toList_append] at characters
      exact List.append_cancel_right characters

/-- **Snake case only lowers and separates.** A name of seven bits in snake case has no capital, and
the letters of the name. It is the name in lower case, with an underscore put where a word starts:
never first, and never behind an underscore. A second time nothing changes. Two such names share a
unit name only if they have the same letters. They share an accessor name only if they have the same
letters, or if one of them is a reserved word that the token, with a character besides underscores,
completes to the other. -/
theorem snakeCase_separates {name : String} (ascii : IsAscii name) :
    (∀ character ∈ (snakeCase name).toList, isUpper character = false) ∧
    (snakeCase name).toList.filter (· != '_') = letters name ∧
    (∃ marked, Marks name.toList marked ∧ (snakeCase name).toList = separate marked) ∧
    snakeCase (snakeCase name) = snakeCase name ∧
    ∀ other, IsAscii other →
      (unitName name = unitName other → letters name = letters other) ∧
      ∀ settings : Settings, ∀ accessor, settings.propertyName name = .ok accessor →
        settings.propertyName other = .ok accessor →
        letters name = letters other ∨ ∃ token ∈ settings.keywordAppendToken,
          IsSpelled token ∧ (Completes token name other ∨ Completes token other name) :=
  ⟨fun _ => isUpper_of_mem_snakeCase ascii, filter_snakeCase ascii,
    ⟨_, marks_marksAfter ascii, toList_snakeCase ascii⟩, snakeCase_snakeCase ascii,
    fun _ otherAscii =>
      ⟨letters_eq_of_snakeCase ascii otherAscii,
        fun _ _ => letters_eq_or_completes ascii otherAscii⟩⟩

/-- Two spellings of one name with an acronym and an underscore, and a reserved word that a token
completes. -/
theorem acronym_separated :
    (IsAscii "HTTPServer_ID" ∧ IsAscii "HttpServer_Id" ∧
      (∃ marked, Marks "HTTPServer_ID".toList marked ∧ "http_server_id".toList = separate marked) ∧
      unitName "HTTPServer_ID" = unitName "HttpServer_Id" ∧
      letters "HTTPServer_ID" = letters "HttpServer_Id") ∧
    (IsAscii "Loop" ∧ IsAscii "loops" ∧
      ({ keywordAppendToken := some "s" } : Settings).propertyName "Loop" = .ok "loops" ∧
      ({ keywordAppendToken := some "s" } : Settings).propertyName "loops" = .ok "loops" ∧
      ∃ token ∈ some "s", IsSpelled token ∧
        (Completes token "Loop" "loops" ∨ Completes token "loops" "Loop")) := by
  have acronym : IsAscii "HTTPServer_ID" ∧ IsAscii "HttpServer_Id" ∧
      snakeCase "HTTPServer_ID" = "http_server_id" ∧
      unitName "HTTPServer_ID" = unitName "HttpServer_Id" := by
    decide +kernel
  have plural : IsAscii "Loop" ∧ IsAscii "loops" ∧
      ({ keywordAppendToken := some "s" } : Settings).propertyName "Loop" = .ok "loops" ∧
      ({ keywordAppendToken := some "s" } : Settings).propertyName "loops" = .ok "loops" ∧
      letters "Loop" ≠ letters "loops" := by
    decide +kernel
  obtain ⟨ascii, otherAscii, shown, shared⟩ := acronym
  obtain ⟨word, longer, named, longerNamed, differ⟩ := plural
  obtain ⟨_, _, marks, _, others⟩ := snakeCase_separates ascii
  rw [shown] at marks
  obtain ⟨_, _, _, _, wordOthers⟩ := snakeCase_separates word
  have completed := (wordOthers _ longer).2 _ _ named longerNamed
  exact ⟨⟨ascii, otherAscii, marks, shared, (others _ otherAscii).1 shared⟩, word, longer, named,
    longerNamed, completed.resolve_left differ⟩

/-- A reserved word with a token behind it has the accessor name of another identifier. -/
theorem token_joins_accessors :
    isIdentifier "type" = true ∧ isIdentifier "typex" = true ∧
      ({ keywordAppendToken := some "x" } : Settings).propertyName "type" = .ok "typex" ∧
      ({ keywordAppendToken := some "x" } : Settings).propertyName "typex" = .ok "typex" ∧
      letters "type" ≠ letters "typex" := by
  decide +kernel

end Sbe.Name
