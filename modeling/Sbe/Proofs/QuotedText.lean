import Mathlib.Data.List.Basic
import Sbe.Proofs.PlainText

/-!
**Quoted text is one literal.**

Between the quotes of a literal every character of its text stands as itself, as a letter behind a
backslash, or as a number in braces. No two of these start alike, so a literal has one reading and
one end, whatever comes behind it. A quoted text has such a form, on one line.

* `Stands`: what may stand for one character;
* `Stands.unique`, `Inside.unique`: there is one way to read what is written;
* `stands_escapeChar`: how quoted characters are written;
* `literal_quote`, `Literal.unquote_eq`, `Literal.unique`: quoted texts and how they are read back;
* `isOneLiteral_quote`, `quote_injective`: all of this for every text.
-/

namespace Sbe.Text

/-! ### Literals -/

/-- The characters that end a line. -/
def lineBreaks : List Char := ['\n', '\r', '\x0b', '\x0c', '\u0085', '\u2028', '\u2029']

/-- What a letter behind a backslash stands for. -/
def letterEscape? : Char → Option Char
  | '"' => some '"'
  | '\\' => some '\\'
  | 'n' => some '\n'
  | 'r' => some '\r'
  | 't' => some '\t'
  | '0' => some '\x00'
  | '\'' => some '\''
  | _ => none

/-- The number that hexadecimal digits stand for behind a number. -/
def hexNumber? (value : Nat) : List Char → Option Nat
  | [] => some value
  | digit :: rest => (hexValue? digit).bind fun digit => hexNumber? (value * 16 + digit) rest

/-- What may stand for one character between the quotes of a literal. -/
inductive Stands : List Char → Char → Prop where
  | plain {character : Char} (apart : character ≠ '"' ∧ character ≠ '\\')
    (unbroken : character ∉ lineBreaks) : Stands [character] character
  | letter {letter character : Char} (known : letterEscape? letter = some character) :
    Stands ['\\', letter] character
  | number {digits : List Char} {character : Char} (filled : digits ≠ []) (few : digits.length ≤ 6)
    (value : hexNumber? 0 digits = some character.toNat) :
    Stands ('\\' :: 'u' :: '\x7b' :: digits ++ ['\x7d']) character

/-- What may stand for a text between the quotes of a literal. -/
inductive Inside : List Char → List Char → Prop where
  | nil : Inside [] []
  | cons {piece rest text : List Char} {character : Char} (first : Stands piece character)
    (later : Inside rest text) : Inside (piece ++ rest) (character :: text)

/-- A literal in double quotes, and the text that it stands for. -/
def Literal (literal text : String) : Prop :=
  ∃ inside, literal.toList = '"' :: inside ++ ['"'] ∧ Inside inside text.toList

/-! ### One reading -/

theorem isSome_of_hexNumber? {value number : Nat} {digits : List Char}
    (found : hexNumber? value digits = some number) :
    ∀ digit ∈ digits, (hexValue? digit).isSome = true := by
  induction digits generalizing value with
  | nil => simp
  | cons digit rest ih =>
    obtain ⟨first, known, later⟩ := Option.bind_eq_some_iff.mp found
    refine List.forall_mem_cons.mpr ⟨?_, ih later⟩
    rw [known]
    rfl

theorem brace_not_mem {value number : Nat} {digits : List Char}
    (found : hexNumber? value digits = some number) : '\x7d' ∉ digits := by
  intro member
  exact absurd (isSome_of_hexNumber? found _ member) (by decide)

theorem digits_inj {digits others rest later : List Char} (first : '\x7d' ∉ digits)
    (second : '\x7d' ∉ others) (same : digits ++ '\x7d' :: rest = others ++ '\x7d' :: later) :
    digits = others ∧ rest = later := by
  have before {digits rest : List Char} (absent : '\x7d' ∉ digits) :
      (digits ++ '\x7d' :: rest).takeWhile (· != '\x7d') = digits := by
    rw [List.takeWhile_append_of_pos
        fun digit member => bne_iff_ne.mpr (ne_of_mem_of_not_mem member absent),
      List.takeWhile_cons_of_neg (by simp), List.append_nil]
  obtain rfl : digits = others := by rw [← before first, same, before second]
  exact ⟨rfl, (List.cons.inj (List.append_cancel_left same)).2⟩

/-- No two pieces start alike. -/
theorem Stands.unique {piece other rest later : List Char} {character second : Char}
    (stands : Stands piece character) (twin : Stands other second)
    (same : piece ++ rest = other ++ later) :
    piece = other ∧ character = second ∧ rest = later := by
  cases stands with
  | plain apart _ =>
    cases twin with
    | plain _ _ =>
      obtain ⟨rfl, rfl⟩ := List.cons.inj same
      exact ⟨rfl, rfl, rfl⟩
    | letter _ => exact absurd (List.cons.inj same).1 apart.2
    | number _ _ _ => exact absurd (List.cons.inj same).1 apart.2
  | letter known =>
    cases twin with
    | plain apart _ => exact absurd (List.cons.inj same).1.symm apart.2
    | letter otherKnown =>
      obtain ⟨rfl, rfl⟩ := List.cons.inj (List.cons.inj same).2
      exact ⟨rfl, Option.some.inj (known.symm.trans otherKnown), rfl⟩
    | number _ _ _ =>
      rw [(List.cons.inj (List.cons.inj same).2).1] at known
      cases known
  | number _ _ value =>
    cases twin with
    | plain apart _ => exact absurd (List.cons.inj same).1.symm apart.2
    | letter known =>
      rw [← (List.cons.inj (List.cons.inj same).2).1] at known
      cases known
    | number _ _ otherValue =>
      simp only [List.cons_append, List.append_assoc, List.nil_append, List.cons.injEq,
        true_and] at same
      -- The digits end at the brace, which is none of them.
      obtain ⟨rfl, rfl⟩ := digits_inj (brace_not_mem value) (brace_not_mem otherValue) same
      refine ⟨rfl, Char.toNat_inj.mp ?_, rfl⟩
      exact Option.some.inj (value.symm.trans otherValue)

theorem Stands.exists_cons {piece : List Char} {character : Char}
    (stands : Stands piece character) : ∃ first rest, piece = first :: rest ∧ first ≠ '"' := by
  cases stands with
  | plain apart _ => exact ⟨_, _, rfl, apart.1⟩
  | letter _ => exact ⟨_, _, rfl, by decide⟩
  | number _ _ _ => exact ⟨_, _, rfl, by decide⟩

/-- What stands before a closing quote is read in one way, and the quote is found. -/
theorem Inside.unique {inside other rest later text value : List Char} (reads : Inside inside text)
    (twin : Inside other value) (same : inside ++ '"' :: rest = other ++ '"' :: later) :
    inside = other ∧ text = value ∧ rest = later := by
  induction reads generalizing other value with
  | nil =>
    cases twin with
    | nil => exact ⟨rfl, rfl, (List.cons.inj same).2⟩
    | cons first _ =>
      obtain ⟨character, others, rfl, apart⟩ := first.exists_cons
      exact absurd (List.cons.inj same).1.symm apart
  | cons first _ ih =>
    cases twin with
    | nil =>
      obtain ⟨character, others, rfl, apart⟩ := first.exists_cons
      exact absurd (List.cons.inj same).1 apart
    | cons otherFirst otherLater =>
      rw [List.append_assoc, List.append_assoc] at same
      obtain ⟨rfl, rfl, same⟩ := first.unique otherFirst same
      obtain ⟨rfl, rfl, rfl⟩ := ih otherLater same
      exact ⟨rfl, rfl, rfl⟩

/-- **A literal has one text and one end**, whatever comes behind it. -/
theorem Literal.unique {literal other text value : String} {rest later : List Char}
    (reads : Literal literal text) (twin : Literal other value)
    (same : literal.toList ++ rest = other.toList ++ later) :
    literal = other ∧ text = value ∧ rest = later := by
  obtain ⟨inside, shape, reads⟩ := reads
  obtain ⟨otherInside, otherShape, twin⟩ := twin
  rw [shape, otherShape] at same
  simp only [List.cons_append, List.append_assoc, List.nil_append, List.cons.injEq,
    true_and] at same
  obtain ⟨rfl, sameText, rfl⟩ := reads.unique twin same
  exact ⟨String.toList_inj.mp (shape.trans otherShape.symm), String.toList_inj.mp sameText, rfl⟩

/-! ### One line -/

/-- No character that ends a line can stand in a literal. -/
theorem of_mem_lineBreaks {mark : Char} (member : mark ∈ lineBreaks) :
    mark ≠ '"' ∧ letterEscape? mark = none ∧ hexValue? mark = none ∧ isUnprintable mark = true := by
  have all : (lineBreaks.all fun mark =>
      mark != '"' && letterEscape? mark == none && hexValue? mark == none && isUnprintable mark) =
    true := by decide +kernel
  have passed := List.all_eq_true.mp all mark member
  simpa [and_assoc] using passed

theorem Stands.unbroken {piece : List Char} {character : Char} (stands : Stands piece character) :
    ∀ mark ∈ piece, mark ∉ lineBreaks := by
  cases stands with
  | plain _ unbroken => simpa using unbroken
  | letter known =>
    intro mark member broken
    obtain ⟨_, none, _⟩ := of_mem_lineBreaks broken
    rcases List.mem_cons.mp member with rfl | isLetter
    · cases none
    · rw [← List.mem_singleton.mp isLetter, none] at known
      cases known
  | number _ _ value =>
    intro mark member broken
    obtain ⟨_, _, none, _⟩ := of_mem_lineBreaks broken
    rw [List.cons_append, List.cons_append, List.cons_append, List.mem_cons, List.mem_cons,
      List.mem_cons, List.mem_append, List.mem_singleton] at member
    rcases member with rfl | rfl | rfl | digit | rfl
    · exact absurd broken (by decide)
    · exact absurd broken (by decide)
    · exact absurd broken (by decide)
    · have known := isSome_of_hexNumber? value mark digit
      rw [none] at known
      cases known
    · exact absurd broken (by decide)

theorem Inside.unbroken {inside text : List Char} (reads : Inside inside text) :
    ∀ mark ∈ inside, mark ∉ lineBreaks := by
  induction reads with
  | nil => simp
  | cons first _ ih =>
    intro mark member
    rcases List.mem_append.mp member with now | later
    · exact first.unbroken mark now
    · exact ih mark later

theorem Literal.unbroken {literal text : String} (reads : Literal literal text) :
    ∀ mark ∈ literal.toList, mark ∉ lineBreaks := by
  obtain ⟨inside, shape, reads⟩ := reads
  intro mark member
  rw [shape, List.cons_append, List.mem_cons, List.mem_append, List.mem_singleton] at member
  rcases member with rfl | inner | rfl
  · decide
  · exact reads.unbroken mark inner
  · decide

/-! ### Reading back -/

theorem readLiteral_number {value number : Nat} {digits : List Char}
    (found : hexNumber? value digits = some number) (rest : List Char) :
    readLiteral (.number value) (digits ++ '\x7d' :: rest) =
      readLiteral (.number number) ('\x7d' :: rest) := by
  induction digits generalizing value with
  | nil =>
    cases found
    rfl
  | cons digit digits ih =>
    obtain ⟨first, known, later⟩ := Option.bind_eq_some_iff.mp found
    have other : digit ≠ '\x7d' := by
      rintro rfl
      cases known
    rw [List.cons_append, readLiteral, if_neg other, known]
    exact ih later

theorem scalar?_toNat (character : Char) : scalar? character.toNat = some character := by
  have valid : character.toNat.isValidChar := character.valid
  rw [scalar?, if_pos valid, Char.ofNat_toNat]

theorem readLiteral_stands {piece : List Char} {character : Char} (stands : Stands piece character)
    (rest : List Char) :
    readLiteral .plain (piece ++ rest) = (readLiteral .plain rest).map (character :: ·) := by
  cases stands with
  | plain apart unbroken =>
    have single : character ≠ '\n' := by
      rintro rfl
      exact unbroken (by decide)
    simp [readLiteral, apart.1, apart.2, single]
  | letter known =>
    unfold letterEscape? at known
    split at known
    case h_8 => cases known
    all_goals
      cases known
      simp [readLiteral]
  | number _ _ value =>
    have opened (digits : List Char) :
        readLiteral .plain ('\\' :: 'u' :: '\x7b' :: digits) = readLiteral (.number 0) digits := by
      simp [readLiteral]
    simp only [List.cons_append, List.append_assoc, List.nil_append]
    rw [opened, readLiteral_number value, readLiteral, if_pos rfl, scalar?_toNat]

theorem readLiteral_inside {inside text : List Char} (reads : Inside inside text) :
    readLiteral .plain (inside ++ ['"']) = some text := by
  induction reads with
  | nil => rfl
  | cons first _ ih => rw [List.append_assoc, readLiteral_stands first, ih, Option.map_some]

theorem Literal.unquote_eq {literal text : String} (reads : Literal literal text) :
    unquote literal = some text := by
  obtain ⟨inside, shape, reads⟩ := reads
  rw [unquote, shape]
  change (readLiteral .plain (inside ++ ['"'])).map String.ofList = some text
  rw [readLiteral_inside reads, Option.map_some, String.ofList_toList]

/-! ### Quoted texts -/

theorem hexValue?_digitChar : ∀ digit < 16, hexValue? (Nat.digitChar digit) = some digit := by
  decide

theorem hexNumber?_append (value : Nat) (digits others : List Char) :
    hexNumber? value (digits ++ others) = (hexNumber? value digits).bind (hexNumber? · others) := by
  induction digits generalizing value with
  | nil => rfl
  | cons digit digits ih =>
    rw [List.cons_append, hexNumber?, hexNumber?, Option.bind_assoc]
    exact congrArg _ (funext fun _ => ih _)

theorem hexNumber?_toDigits (number : Nat) :
    hexNumber? 0 (Nat.toDigits 16 number) = some number := by
  induction number using Nat.strongRecOn with
  | ind number ih =>
    by_cases small : number < 16
    · rw [Nat.toDigits_of_lt_base small, hexNumber?, hexValue?_digitChar number small]
      simp [hexNumber?]
    · rw [Nat.toDigits_of_base_le (by decide) (by omega), hexNumber?_append,
        ih (number / 16) (by omega), Option.bind_some, hexNumber?,
        hexValue?_digitChar _ (Nat.mod_lt _ (by decide)), Option.bind_some, hexNumber?,
        Nat.div_add_mod']

theorem length_toDigits_le (character : Char) : (Nat.toDigits 16 character.toNat).length ≤ 6 := by
  have scalar : character.toNat < 1114112 := by
    rcases character.valid with below | above
    · exact Nat.lt_trans below (by decide)
    · exact above.2
  exact (Nat.length_toDigits_le_iff (by decide) (by decide)).mpr (Nat.lt_trans scalar (by decide))

/-- A quoted character is written as itself, by a letter or by its number. -/
theorem stands_escapeChar (character : Char) : Stands (escapeChar '"' character) character := by
  unfold escapeChar
  split_ifs with nul tab carriage feed mark unprintable
  · exact .letter (by rw [nul]; rfl)
  · exact .letter (by rw [tab]; rfl)
  · exact .letter (by rw [carriage]; rfl)
  · exact .letter (by rw [feed]; rfl)
  · rcases Bool.or_eq_true_iff.mp mark with same | same
    · rw [of_decide_eq_true same]
      exact .letter rfl
    · rw [of_decide_eq_true same]
      exact .letter rfl
  · exact .number Nat.toDigits_ne_nil (length_toDigits_le character) (hexNumber?_toDigits _)
  · refine .plain (by simpa using mark) fun broken => unprintable ?_
    exact (of_mem_lineBreaks broken).2.2.2

theorem inside_flatMap (text : List Char) : Inside (text.flatMap (escapeChar '"')) text := by
  induction text with
  | nil => exact .nil
  | cons character rest ih => exact .cons (stands_escapeChar character) ih

/-- **A quoted text is a literal of that text.** -/
theorem literal_quote (text : String) : Literal (quote text) text :=
  ⟨text.toList.flatMap (escapeChar '"'), String.toList_ofList, inside_flatMap text.toList⟩

/-- A literal that stands for a text and nothing else, on one line, wherever it is put. -/
structure IsOneLiteral (literal text : String) : Prop where
  reads : Literal literal text
  unbroken : ∀ mark ∈ literal.toList, mark ∉ lineBreaks
  back : unquote literal = some text
  ends : ∀ other value rest later, Literal other value →
    literal.toList ++ rest = other.toList ++ later →
    other = literal ∧ value = text ∧ later = rest

theorem isOneLiteral_quote (text : String) : IsOneLiteral (quote text) text where
  reads := literal_quote text
  unbroken := (literal_quote text).unbroken
  back := (literal_quote text).unquote_eq
  ends _ _ _ _ twin same := twin.unique (literal_quote text) same.symm

theorem quote_injective : Function.Injective quote := by
  intro text other same
  have back := (isOneLiteral_quote text).back
  rw [same, (isOneLiteral_quote other).back] at back
  exact (Option.some.inj back).symm

end Sbe.Text
