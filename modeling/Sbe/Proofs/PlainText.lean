import Sbe.Proofs.Accepted
import Sbe.Source.Property

/-!
**Text without line breaks.**

Source is emitted line by line, and what fills the gaps of a line must not break it: names, numbers,
literals and quoted texts. A name keeps its line breaks and underscores through every change of
case, because no other character has one of them as its upper or lower form.

* `Spelled`: text that passes a test of its characters, which a literal does by evaluation;
* `Plain`: text without line breaks;
* `mem_upper`, `mem_lower`: the characters that no change of case makes;
* `plain_snakeCase`, `plain_pascalCase`, `underscore_not_mem_pascalCase`: names;
* `literal_yields`: literals.
-/

namespace Sbe.Text

/-! ### Spelling -/

/-- Text that is spelled with characters that pass a test. Unification spells a literal, so that the
test runs on a list of characters and never on the bytes of a text. -/
inductive Spelled (test : List Char → Bool) (text : String) : Prop where
  | intro (characters : List Char) (same : String.ofList characters = text)
      (passed : test characters = true)

theorem Spelled.passes {test : List Char → Bool} {text : String} (spelled : Spelled test text) :
    test text.toList = true := by
  obtain ⟨characters, rfl, passed⟩ := spelled
  rwa [String.toList_ofList]

/-- Text without line breaks. -/
def Plain (text : String) : Prop := '\n' ∉ text.toList

@[simp] theorem plain_append (first second : String) :
    Plain (first ++ second) ↔ Plain first ∧ Plain second := by
  simp [Plain]

theorem plain_ofList {characters : List Char} :
    Plain (String.ofList characters) ↔ '\n' ∉ characters := by
  rw [Plain, String.toList_ofList]

@[simp low] theorem plain_of_spelled {text : String}
    (spelled : Spelled (fun characters => characters.all fun character => character.toNat != 10)
      text) : Plain text := by
  intro broken
  have passed := List.all_eq_true.mp spelled.passes _ broken
  cases passed

theorem plain_literal {characters : List Char}
    (passed : (characters.all fun character => character.toNat != 10) = true) :
    Plain (String.ofList characters) := plain_of_spelled ⟨characters, rfl, passed⟩

/-! ### Numbers and quoted text -/

theorem break_not_mem_toDigits {base : Nat} (least : 1 < base) (greatest : base ≤ 16)
    (number : Nat) : '\n' ∉ Nat.toDigits base number := by
  have single : ∀ digit < 16, '\n' ≠ Nat.digitChar digit := by decide
  induction number using Nat.strongRecOn with
  | ind number ih =>
    by_cases small : number < base
    · rw [Nat.toDigits_of_lt_base small, List.mem_singleton]
      exact single number (by omega)
    · rw [Nat.toDigits_of_base_le least (by omega), List.mem_append, List.mem_singleton, not_or]
      have last : number % base < base := Nat.mod_lt _ (by omega)
      exact ⟨ih _ (Nat.div_lt_self (by omega) least), single _ (by omega)⟩

@[simp] theorem plain_natRepr (number : Nat) : Plain number.repr := by
  rw [← Nat.toString_eq_repr, Nat.toString_eq_ofList_toDigits, plain_ofList]
  exact break_not_mem_toDigits (by decide) (by decide) number

@[simp] theorem plain_intRepr (number : Int) : Plain number.repr := by
  cases number with
  | ofNat size => exact plain_natRepr size
  | negSucc size =>
    show Plain ("-" ++ (size + 1).repr)
    exact (plain_append _ _).mpr ⟨plain_literal rfl, plain_natRepr _⟩

theorem break_not_mem_escapeChar (quote character : Char) : '\n' ∉ escapeChar quote character := by
  unfold escapeChar
  split
  · decide
  split
  · decide
  split
  · decide
  split
  · decide
  next other =>
  have single : '\n' ≠ character := Ne.symm other
  split
  · simp [single]
  split
  · simp [numberEscape, break_not_mem_toDigits]
  · simp [single]

@[simp] theorem plain_quote (text : String) : Plain (quote text) := by
  rw [quote, plain_ofList]
  simp [break_not_mem_escapeChar]

/-! ### Letter case -/

/-- A table of runs without a code point among its images. -/
def avoids (code : Nat) (runs : List Run) : Bool :=
  runs.all
    fun run => decide (code < run.image) || decide (run.image + (run.last - run.first) < code)

theorem imageIn_ne {code other image : Nat} {runs : List Run} (avoided : avoids code runs = true)
    (found : imageIn runs other = some image) : image ≠ code := by
  induction runs with
  | nil => cases found
  | cons run rest ih =>
    rw [avoids, List.all_cons, Bool.and_eq_true, Bool.or_eq_true, decide_eq_true_eq,
      decide_eq_true_eq] at avoided
    rw [imageIn] at found
    split at found
    · cases found
      omega
    · exact ih avoided.2 found

theorem toNat_of_ofNat {code : Nat} {character : Char} (same : Char.ofNat code = character)
    (positive : character.toNat ≠ 0) : character.toNat = code := by
  subst same
  by_cases valid : code.isValidChar
  · rw [Char.ofNat, dif_pos valid]
    rfl
  · rw [Char.ofNat, dif_neg valid] at positive
    exact absurd rfl positive

/-- Whether the tables of a mapping make a character of no other. -/
def neverMakes (sequences : List (Nat × List Nat)) (images : List Run) (made : Char) : Bool :=
  made.toNat != 0 && avoids made.toNat images &&
    sequences.all fun entry => !(entry.2.map Char.ofNat).contains made

/-- Where the tables of a mapping do not make a character, only the character itself is mapped to
it. -/
theorem mem_mapCase {sequences : List (Nat × List Nat)} {images : List Run} {made character : Char}
    (never : neverMakes sequences images made = true)
    (member : made ∈ mapCase sequences images character) : character = made := by
  rw [neverMakes, Bool.and_eq_true, Bool.and_eq_true, bne_iff_ne] at never
  obtain ⟨⟨positive, avoided⟩, apart⟩ := never
  unfold mapCase at member
  split at member
  · next codes found =>
    obtain ⟨before, after, split, _⟩ := List.lookup_eq_some_iff.mp found
    have entry : (character.toNat, codes) ∈ sequences := by simp [split]
    have inside := List.all_eq_true.mp apart _ entry
    simp [List.mem_map.mp member] at inside
  split at member
  · next code found =>
    have same := toNat_of_ofNat (List.mem_singleton.mp member).symm positive
    exact absurd same.symm (imageIn_ne avoided found)
  · exact (List.mem_singleton.mp member).symm

/-- Marks that no change of case makes. -/
def caselessMarks : List Char := ['\n', '/', '<', '_']

theorem mem_upper {made character : Char} (caseless : made ∈ caselessMarks)
    (member : made ∈ upper character) : character = made := by
  have never : caselessMarks.all
      (neverMakes Letter.toUpperAlone (Letter.pairs.map Run.swap)) = true := by
    decide +kernel
  exact mem_mapCase (List.all_eq_true.mp never made caseless) member

theorem mem_lower {made character : Char} (caseless : made ∈ caselessMarks)
    (member : made ∈ lower character) : character = made := by
  have never : caselessMarks.all (neverMakes Letter.toLowerAlone Letter.pairs) = true := by
    decide +kernel
  exact mem_mapCase (List.all_eq_true.mp never made caseless) member

theorem mem_upperWord {made : Char} (caseless : made ∈ caselessMarks) {word : List Char}
    (member : made ∈ upperWord word) : made ∈ word := by
  obtain ⟨character, inside, member⟩ := List.mem_flatMap.mp member
  rwa [← mem_upper caseless member]

theorem mem_lowerAfter {made : Char} (caseless : made ∈ caselessMarks) {before word : List Char}
    (member : made ∈ lowerAfter before word) : made ∈ word := by
  induction word generalizing before with
  | nil => exact member
  | cons character rest ih =>
    rw [lowerAfter, List.mem_append] at member
    rcases member with mapped | later
    · split at mapped
      · -- Neither form of the small sigma is a mark.
        have sigma : 'ς' ∉ caselessMarks ∧ 'σ' ∉ caselessMarks := by decide
        split at mapped
        · exact absurd (List.mem_singleton.mp mapped ▸ caseless) sigma.1
        · exact absurd (List.mem_singleton.mp mapped ▸ caseless) sigma.2
      · rw [mem_lower caseless mapped]
        exact List.mem_cons_self
    · exact List.mem_cons_of_mem _ (ih later)

end Sbe.Text

namespace Sbe.Name

open Sbe.Text

theorem mem_capitalize {made : Char} (caseless : made ∈ caselessMarks) {lowerRest : Bool}
    {word : List Char} (member : made ∈ capitalize lowerRest word) : made ∈ word := by
  cases word with
  | nil => exact member
  | cons first rest =>
    rw [capitalize, List.mem_append] at member
    rcases member with mapped | later
    · rw [mem_upper caseless mapped]
      exact List.mem_cons_self
    · refine List.mem_cons_of_mem _ ?_
      split at later
      · exact mem_lowerAfter caseless later
      · exact later

theorem mem_of_mem_wordsFrom {before characters word : List Char}
    (member : word ∈ wordsFrom before characters) {character : Char} (inside : character ∈ word) :
    character ∈ before ∨ character ∈ characters ∧ character ≠ '_' := by
  induction characters generalizing before with
  | nil =>
    rw [wordsFrom, List.mem_singleton] at member
    rw [member, List.mem_reverse] at inside
    exact .inl inside
  | cons first rest ih =>
    rw [wordsFrom] at member
    split at member
    · rcases List.mem_cons.mp member with rfl | later
      · exact .inl (List.mem_reverse.mp inside)
      · rcases ih later with none | ⟨inside, other⟩
        · cases none
        · exact .inr ⟨List.mem_cons_of_mem _ inside, other⟩
    · next other =>
      rcases ih member with found | ⟨inside, other⟩
      · rcases List.mem_cons.mp found with rfl | found
        · exact .inr ⟨List.mem_cons_self, other⟩
        · exact .inl found
      · exact .inr ⟨List.mem_cons_of_mem _ inside, other⟩

/-- The caseless characters of a name in pascal case are those of the name, underscores apart. -/
theorem mem_pascalCase {made : Char} (caseless : made ∈ caselessMarks) {name : String}
    (member : made ∈ (pascalCase name).toList) : made ∈ name.toList ∧ made ≠ '_' := by
  rw [pascalCase, String.toList_ofList] at member
  split at member
  · obtain ⟨word, found, inside⟩ := List.mem_flatMap.mp member
    rcases mem_of_mem_wordsFrom (List.mem_filter.mp found).1 (mem_capitalize caseless inside) with
      none | kept
    · cases none
    · exact kept
  · next single =>
    have inside := mem_capitalize caseless member
    refine ⟨inside, ?_⟩
    rintro rfl
    exact single (List.contains_iff_mem.mpr inside)

theorem plain_pascalCase {name : String} (plain : Plain name) : Plain (pascalCase name) :=
  fun broken => plain (mem_pascalCase (by decide) broken).1

theorem underscore_not_mem_pascalCase (name : String) : '_' ∉ (pascalCase name).toList :=
  fun member => (mem_pascalCase (by decide) member).2 rfl

theorem mem_snakeAfter {made : Char} (caseless : made ∈ caselessMarks) (other : made ≠ '_')
    {before : Option Char} {characters : List Char} (member : made ∈ snakeAfter before characters) :
    made ∈ characters := by
  induction characters generalizing before with
  | nil => exact member
  | cons character rest ih =>
    rw [snakeAfter, List.mem_append] at member
    rcases member with piece | later
    · refine List.mem_cons.mpr (.inl ?_)
      split at piece
      · rcases List.mem_append.mp piece with underscore | mapped
        · split at underscore
          · exact absurd (List.mem_singleton.mp underscore) other
          · cases underscore
        · exact (mem_lower caseless mapped).symm
      · exact List.mem_singleton.mp piece
    · exact List.mem_cons_of_mem _ (ih later)

/-- The marks of a name in snake case are those of the name, underscores apart. -/
theorem mem_snakeCase {made : Char} (caseless : made ∈ caselessMarks) (other : made ≠ '_')
    {name : String} (member : made ∈ (snakeCase name).toList) : made ∈ name.toList := by
  rw [snakeCase, String.toList_ofList] at member
  exact mem_snakeAfter caseless other member

theorem plain_snakeCase {name : String} (plain : Plain name) : Plain (snakeCase name) :=
  fun broken => plain (mem_snakeCase (by decide) (by decide) broken)

theorem plain_upperSnakeCase {name : String} (plain : Plain name) :
    Plain (upperSnakeCase name) := by
  rw [upperSnakeCase, plain_ofList]
  exact fun broken => plain_snakeCase plain (mem_upperWord (by decide) broken)

/-! ### Identifiers -/

theorem continuesIdentifier_of_starts {character : Char}
    (starts : startsIdentifier character = true) : continuesIdentifier character = true := by
  simp only [startsIdentifier, Bool.or_eq_true] at starts
  rcases starts with letter | underscore
  · simp [continuesIdentifier, Char.isAlphanum, letter]
  · simp [continuesIdentifier, underscore]

theorem continuesIdentifier_of_mem {name : String} (identifier : isIdentifier name = true)
    {character : Char} (member : character ∈ name.toList) :
    continuesIdentifier character = true := by
  unfold isIdentifier at identifier
  split at identifier
  · cases identifier
  · next first rest characters =>
    rw [Bool.and_eq_true] at identifier
    rw [characters] at member
    rcases List.mem_cons.mp member with rfl | later
    · exact continuesIdentifier_of_starts identifier.1
    · exact List.all_eq_true.mp identifier.2 character later

theorem plain_of_isIdentifier {name : String} (identifier : isIdentifier name = true) :
    Plain name :=
  fun broken => absurd (continuesIdentifier_of_mem identifier broken) (by decide)

theorem plain_of_isReserved {name : String} (reserved : isReserved name = true) : Plain name := by
  have words : ∀ word ∈ reservedWords, Plain word := by
    simp (disch := constructor; rfl; decide) [reservedWords]
  exact words name (List.contains_iff_mem.mp reserved)

end Sbe.Name

namespace Sbe

open Sbe.Text
open Sbe.Outcome (Yields)

theorem Token.IsNamed.typeName {token : Token} (named : token.IsNamed) :
    Name.isIdentifier token.typeName = true := by
  unfold Token.typeName
  cases referenced : token.referencedName with
  | none => exact named.1
  | some name => exact named.2 name referenced

namespace Settings

/-- Settings whose texts have no line breaks. -/
structure Plain (settings : Settings) : Prop where
  token : ∀ token ∈ settings.keywordAppendToken, Text.Plain token
  supportPath : Text.Plain settings.supportPath
  readBuffer : Text.Plain settings.readBuffer
  writeBuffer : Text.Plain settings.writeBuffer

variable {settings : Settings}

/-- A formatted name is kept, or is a reserved word behind which the configured token stands. -/
theorem escape_yields (settings : Settings) (formatted name : String) :
    Yields (settings.escape formatted name) fun escaped =>
      Name.isReserved formatted = false ∧ escaped = formatted ∨
      Name.isReserved formatted = true ∧
        ∃ token ∈ settings.keywordAppendToken, escaped = formatted ++ token := by
  unfold escape
  split
  · next reserved =>
    split
    · next token given =>
      split
      · exact .refuse _
      · exact .pure (.inr ⟨reserved, token, given, rfl⟩)
    · exact .refuse _
  · next free => exact .pure (.inl ⟨Bool.eq_false_iff.mpr free, rfl⟩)

theorem Plain.escape (plain : settings.Plain) {formatted : String} (each : Text.Plain formatted)
    (name : String) : Yields (settings.escape formatted name) Text.Plain := by
  refine (escape_yields settings formatted name).mono ?_
  rintro escaped (⟨_, rfl⟩ | ⟨_, token, given, rfl⟩)
  · exact each
  · exact (plain_append _ _).mpr ⟨each, plain.token token given⟩

theorem Plain.propertyName (plain : settings.Plain) {name : String} (each : Text.Plain name) :
    Yields (settings.propertyName name) Text.Plain := plain.escape (Name.plain_snakeCase each) name

theorem Plain.typeName (plain : settings.Plain) {name : String} (each : Text.Plain name) :
    Yields (settings.typeName name) Text.Plain := plain.escape (Name.plain_pascalCase each) name

end Settings

end Sbe

namespace Sbe.Source

open Sbe.Number Sbe.Text
open Sbe.Outcome (Yields)

/-! ### Literals and buffer accesses -/

@[simp] theorem plain_sourceType (primitive : Primitive) : Plain primitive.sourceType := by
  cases primitive <;> exact plain_literal rfl

@[simp] theorem plain_path (order : ByteOrder) : Plain order.path := by
  cases order <;> exact plain_literal rfl

@[simp] theorem plain_charsetPath (charset : Charset) : Plain (charsetPath charset) := by
  cases charset <;> exact plain_literal rfl

@[simp] theorem plain_suffix (side : Side) : Plain side.suffix := by
  cases side <;> exact plain_literal rfl

@[simp] theorem plain_buffer (side : Side) : Plain side.buffer := by
  cases side <;> exact plain_literal rfl

@[simp] theorem plain_offsetFrom (base : String) (offset : UInt64) :
    Plain (offsetFrom base offset) ↔ Plain base := by
  unfold offsetFrom
  split
  · rfl
  · simp (disch := constructor; rfl; decide)

@[simp] theorem plain_orderArgument (primitive : Primitive) (order : ByteOrder) :
    Plain (orderArgument primitive order) := by
  unfold orderArgument
  split
  · exact plain_literal rfl
  · simp (disch := constructor; rfl; decide)

@[simp] theorem plain_readAt (primitive : Primitive) (buffer index : String) (order : ByteOrder) :
    Plain (readAt primitive buffer index order) ↔ Plain buffer ∧ Plain index := by
  simp (disch := constructor; rfl; decide) [readAt]

theorem plain_intercalate {separator : String} (plain : Plain separator) {texts : List String}
    (each : ∀ text ∈ texts, Plain text) : Plain (String.intercalate separator texts) := by
  induction texts with
  | nil => exact plain_literal rfl
  | cons first rest ih =>
    obtain ⟨one, later⟩ := List.forall_mem_cons.mp each
    cases rest with
    | nil => rwa [String.intercalate_singleton]
    | cons second rest =>
      rw [String.intercalate_cons_cons, plain_append, plain_append]
      exact ⟨⟨one, plain⟩, ih later⟩

@[simp] theorem plain_byteList (bytes : List UInt8) : Plain (byteList bytes) := by
  have inside : Plain (String.intercalate ", " (bytes.map fun byte => toString byte.toNat)) := by
    refine plain_intercalate (plain_literal rfl) fun text member => ?_
    obtain ⟨byte, _, rfl⟩ := List.mem_map.mp member
    exact plain_natRepr _
  rw [byteList, plain_append, plain_append]
  exact ⟨⟨plain_literal rfl, inside⟩, plain_literal rfl⟩

theorem plain_zeros (count : Nat) : Plain (zeros count) := by
  rw [zeros, plain_ofList]
  exact fun broken => absurd (List.eq_of_mem_replicate broken) (by decide)

theorem plain_pointText (pointZero : Bool) {digits : String} (plain : Plain digits) (whole : Int) :
    Plain (pointText pointZero digits whole) := by
  have taken : Plain (String.ofList (digits.toList.take whole.toNat)) :=
    plain_ofList.mpr fun broken => plain (List.mem_of_mem_take broken)
  have dropped : Plain (String.ofList (digits.toList.drop whole.toNat)) :=
    plain_ofList.mpr fun broken => plain (List.mem_of_mem_drop broken)
  unfold pointText
  dsimp only
  split
  · simp (disch := constructor; rfl; decide) [plain, plain_zeros]
  split
  · cases pointZero <;> simp (disch := constructor; rfl; decide) [plain, plain_zeros]
  · simp (disch := constructor; rfl; decide) [taken, dropped]

theorem plain_exponentText {digits : String} (plain : Plain digits) (leading : Int) :
    Plain (exponentText digits leading) := by
  unfold exponentText
  dsimp only
  rw [plain_append, plain_append]
  refine ⟨⟨?_, plain_literal rfl⟩, plain_intRepr leading⟩
  split
  · exact plain_literal rfl
  · next characters =>
    rw [Plain, characters] at plain
    exact plain_ofList.mpr plain
  · next characters =>
    rw [Plain, characters] at plain
    exact plain_ofList.mpr (by simpa using plain)

theorem plain_decimalText (style : Style) (decimal : Decimal) :
    Plain (style.decimalText decimal) := by
  unfold Style.decimalText
  dsimp only
  split
  · split <;> exact plain_literal rfl
  split
  · exact plain_pointText _ (plain_natRepr _) _
  · exact plain_exponentText (plain_natRepr _) _

theorem plain_doubleLiteral (value : Double) : Plain value.literal := by
  unfold Double.literal Style.text
  split
  · exact plain_literal rfl
  · split <;> exact plain_literal rfl
  · rw [plain_append]
    refine ⟨?_, plain_decimalText _ _⟩
    split <;> exact plain_literal rfl

theorem plain_intLiteral (primitive : Primitive) (least greatest value : Int) :
    Plain (intLiteral primitive least greatest value) := by
  unfold intLiteral
  split
  · simp (disch := constructor; rfl; decide)
  split
  · simp (disch := constructor; rfl; decide)
  · exact plain_intRepr value

theorem plain_of_floatLiteral? {primitive : Primitive} {value : Double} {shown : String}
    (found : floatLiteral? primitive value = some shown) : Plain shown := by
  have constant (name : String) (plain : Plain name) : Plain (primitive.sourceType ++ name) :=
    (plain_append _ _).mpr ⟨plain_sourceType primitive, plain⟩
  unfold floatLiteral? at found
  dsimp only at found
  split at found
  · cases found
    exact constant _ (plain_literal rfl)
  · cases found
    exact constant _ (plain_literal rfl)
  · cases found
    exact constant _ (plain_literal rfl)
  split at found
  · cases found
    exact constant _ (plain_literal rfl)
  split at found
  · cases found
    exact constant _ (plain_literal rfl)
  split at found
  · cases found
  · cases found
    exact plain_doubleLiteral value

theorem literal_yields (primitive : Primitive) (value : Scalar) (name : String) :
    Yields (literal primitive value name) Plain := by
  refine .ofOption _ fun shown found => ?_
  split at found
  · obtain ⟨whole, _, found⟩ := Option.bind_eq_some_iff.mp found
    split at found
    · cases found
      exact plain_intLiteral _ _ _ _
    · cases found
  · obtain ⟨double, _, found⟩ := Option.bind_eq_some_iff.mp found
    exact plain_of_floatLiteral? found

end Sbe.Source
