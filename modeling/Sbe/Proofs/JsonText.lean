import Sbe.Json.Printer
import Sbe.Json.Reader

/-!
**Reading JSON text that was written in the compact form.**

The compact text of a value is read back as the value. A numeral has no mark at its end, so what
follows it must not go on with it; every other value ends by itself.

* `readNumber_text`: numerals;
* `readString_escape`: strings, whatever characters they have;
* `readValue_compact`: values, by induction on their structure;
* `parse_compact`: whole texts.
-/

namespace Sbe.Json

open Sbe.Number

/-! ### Digits -/

/-- A run of one or more decimal digits. -/
def IsDigits (digits : List Char) : Prop := digits ≠ [] ∧ ∀ c ∈ digits, c.isDigit = true

theorem isDigits_toDigits (number : Nat) : IsDigits (Nat.toDigits 10 number) :=
  ⟨Nat.toDigits_ne_nil, fun _ member => Nat.isDigit_of_mem_toDigits (by decide) (by decide) member⟩

theorem toList_toString (number : Nat) : (toString number).toList = Nat.toDigits 10 number := by
  rw [Nat.toString_eq_repr, Nat.toList_repr]

theorem digitsValue_toDigits (number : Nat) : digitsValue (Nat.toDigits 10 number) = number := by
  have value : Nat.ofDigitChars 10 (Nat.toDigits 10 number) 0 = number :=
    Nat.ofDigitChars_toDigits (by decide) (by decide)
  simpa only [digitsValue, Nat.ofDigitChars, Nat.mul_comm] using value

theorem readDigits_append {digits rest : List Char} (run : IsDigits digits)
    (ends : ∀ c ∈ rest.head?, c.isDigit = false) :
    readDigits (digits ++ rest) = some (digits, rest) := by
  have stop : rest.takeWhile Char.isDigit = [] ∧ rest.dropWhile Char.isDigit = rest := by
    cases rest with
    | nil => exact ⟨rfl, rfl⟩
    | cons c rest =>
      have other : c.isDigit = false := ends c rfl
      simp [other]
  obtain ⟨digit, later, rfl⟩ := List.exists_cons_of_ne_nil run.1
  rw [readDigits, List.takeWhile_append_of_pos run.2, List.dropWhile_append_of_pos run.2, stop.1,
    stop.2, List.append_nil]

/-! ### Numerals -/

/-- A numeral of the grammar: digits without a leading zero, and digits behind a point. -/
structure Numeral.WellFormed (numeral : Numeral) : Prop where
  whole : IsDigits numeral.whole
  noLeadingZero : ∀ rest, numeral.whole = '0' :: rest → rest = []
  fraction : ∀ digits ∈ numeral.fraction, IsDigits digits

/-- What follows does not go on with a numeral. -/
def Stops (rest : List Char) : Prop :=
  ∀ c ∈ rest.head?, c.isDigit = false ∧ c ≠ '.' ∧ c ≠ 'e' ∧ c ≠ 'E'

theorem readPower_toString (negative : Bool) (size : Nat) {rest : List Char} (stops : Stops rest) :
    readPower ((if negative then "-" else "+").toList ++ (toString size).toList ++ rest) =
      some ((negative, size), rest) := by
  have digits := readDigits_append (isDigits_toDigits size) fun c member => (stops c member).1
  have value := digitsValue_toDigits size
  rw [toList_toString]
  cases negative with
  | false => simp [readPower, splitSign, digits, value]
  | true => simp [readPower, splitSign, digits, value]

/-- The text of the digits behind a point. -/
def fractionText : Option (List Char) → List Char
  | none => []
  | some digits => '.' :: digits

/-- The text of an exponent. -/
def exponentText : Option (Bool × Nat) → List Char
  | none => []
  | some (negative, size) =>
    'e' :: ((if negative then "-" else "+").toList ++ (toString size).toList)

theorem Numeral.toList_text (numeral : Numeral) : numeral.text.toList =
    (if numeral.negative then ['-'] else []) ++
      (numeral.whole ++ (fractionText numeral.fraction ++ exponentText numeral.exponent)) := by
  obtain ⟨negative, whole, fraction, exponent⟩ := numeral
  rcases fraction with _ | digits <;> rcases exponent with _ | ⟨sign, size⟩ <;> cases negative <;>
    simp [Numeral.text, fractionText, exponentText]

theorem readExponent_text (exponent : Option (Bool × Nat)) {rest : List Char} (stops : Stops rest) :
    readExponent (exponentText exponent ++ rest) = some (exponent, rest) := by
  cases exponent with
  | some pair =>
    have read := readPower_toString pair.1 pair.2 stops
    rw [exponentText, List.cons_append, readExponent, read]
    rfl
  | none =>
    rw [exponentText, List.nil_append]
    cases rest with
    | nil => rfl
    | cons c rest =>
      obtain ⟨_, _, small, capital⟩ := stops c rfl
      simp [readExponent, small, capital]

theorem readFraction_text {fraction : Option (List Char)}
    (digits : ∀ digits ∈ fraction, IsDigits digits) {rest : List Char}
    (ends : ∀ c ∈ rest.head?, c.isDigit = false ∧ c ≠ '.') :
    readFraction (fractionText fraction ++ rest) = some (fraction, rest) := by
  cases fraction with
  | some run =>
    have read := readDigits_append (digits run rfl) fun c member => (ends c member).1
    rw [fractionText, List.cons_append, readFraction, read]
    rfl
  | none =>
    rw [fractionText, List.nil_append]
    cases rest with
    | nil => rfl
    | cons c rest =>
      have other := (ends c rfl).2
      simp [readFraction, other]

theorem readNumberTail_text (negative : Bool) (whole : List Char) {fraction : Option (List Char)}
    (digits : ∀ digits ∈ fraction, IsDigits digits) (exponent : Option (Bool × Nat))
    {rest : List Char} (stops : Stops rest) :
    readNumberTail negative whole (fractionText fraction ++ (exponentText exponent ++ rest)) =
      some (⟨negative, whole, fraction, exponent⟩, rest) := by
  have ends : ∀ c ∈ (exponentText exponent ++ rest).head?, c.isDigit = false ∧ c ≠ '.' := by
    cases exponent with
    | some pair =>
      rintro c ⟨⟩
      exact ⟨by decide, by decide⟩
    | none => exact fun c member => ⟨(stops c member).1, (stops c member).2.1⟩
  simp [readNumberTail, readFraction_text digits ends, readExponent_text exponent stops]

theorem readUnsigned_text {numeral : Numeral} (wellFormed : numeral.WellFormed) {rest : List Char}
    (stops : Stops rest) :
    readUnsigned numeral.negative (numeral.whole ++
      (fractionText numeral.fraction ++ (exponentText numeral.exponent ++ rest))) =
      some (numeral, rest) := by
  obtain ⟨negative, whole, fraction, exponent⟩ := numeral
  have ends : ∀ c ∈ (fractionText fraction ++ (exponentText exponent ++ rest)).head?,
      c.isDigit = false := by
    rcases fraction with _ | digits
    · rcases exponent with _ | pair
      · exact fun c member => (stops c member).1
      · rintro c ⟨⟩
        decide
    · rintro c ⟨⟩
      decide
  have read := readDigits_append wellFormed.whole ends
  simp only [readUnsigned, read, Option.bind_eq_bind, Option.bind_some]
  split
  · -- A single zero is not a leading one.
    cases wellFormed.noLeadingZero _ rfl
  · exact readNumberTail_text negative whole wellFormed.fraction exponent stops

theorem readNumber_text {numeral : Numeral} (wellFormed : numeral.WellFormed) {rest : List Char}
    (stops : Stops rest) : readNumber (numeral.text.toList ++ rest) = some (numeral, rest) := by
  have unsigned := readUnsigned_text wellFormed stops
  obtain ⟨digit, later, whole⟩ := List.exists_cons_of_ne_nil wellFormed.whole.1
  have noSign : digit ≠ '-' := by
    rintro rfl
    have isDigit := wellFormed.whole.2 '-' (by simp [whole])
    cases isDigit
  rw [Numeral.toList_text]
  cases negative : numeral.negative with
  | true =>
    rw [negative] at unsigned
    simpa [readNumber] using unsigned
  | false =>
    rw [negative, whole] at unsigned
    simpa [readNumber, whole, noSign] using unsigned

/-! ### Strings -/

/-- The controls that are escaped by a letter. -/
def letterControls : List Char := ['\x08', '\t', '\n', '\x0c', '\r']

/-- How a character is read when it was written: a control without a letter as a code unit. -/
def pieceOf (character : Char) : Piece :=
  if character.toNat < 0x20 ∧ character ∉ letterControls then .unit character.toNat
  else .character character

theorem hexValue_digitChar : ∀ digit < 16, Text.hexValue? (Nat.digitChar digit) = some digit := by
  decide

theorem readPieces_escape (before : List Piece) (character : Char) (input : List Char) :
    readPieces before (escape character ++ input) =
      readPieces (pieceOf character :: before) input := by
  by_cases quote : character = '"'
  · subst quote; rfl
  by_cases backslash : character = '\\'
  · subst backslash; rfl
  by_cases letter : character ∈ letterControls
  · simp only [letterControls, List.mem_cons, List.not_mem_nil, or_false] at letter
    rcases letter with rfl | rfl | rfl | rfl | rfl <;> rfl
  · have others := letter
    simp only [letterControls, List.mem_cons, List.not_mem_nil, or_false, not_or] at others
    obtain ⟨b, t, n, f, r⟩ := others
    by_cases control : character.toNat < 0x20
    · -- Two hexadecimal digits are enough for a control.
      have front := hexValue_digitChar (character.toNat / 16) (by omega)
      have back := hexValue_digitChar (character.toNat % 16) (by omega)
      have zero : Text.hexValue? '0' = some 0 := by decide
      have code : unit? '0' '0' (Nat.digitChar (character.toNat / 16))
          (Nat.digitChar (character.toNat % 16)) = some character.toNat := by
        simp only [unit?, zero, front, back, Option.bind_eq_bind, Option.bind_some, Option.pure_def,
          Option.some.injEq]
        omega
      simp [escape, quote, backslash, b, t, n, f, r, control, readPieces, code, pieceOf, letter]
    · simp [escape, quote, backslash, b, t, n, f, r, control, readPieces, pieceOf]

theorem joinPieces_unit {code : Nat} (control : code < 0x20) (before : List Char)
    (rest : List Piece) :
    joinPieces before (.unit code :: rest) = joinPieces (Char.ofNat code :: before) rest := by
  have high : ¬ (0xd800 ≤ code ∧ code ≤ 0xdbff) := by omega
  have low : ¬ (0xdc00 ≤ code ∧ code ≤ 0xdfff) := by omega
  have surrogate : ¬ (0xd800 ≤ code ∧ code ≤ 0xdfff) := by omega
  cases rest with
  | nil => exact if_neg surrogate
  | cons piece rest =>
    cases piece with
    | character => exact if_neg surrogate
    | unit => rw [joinPieces, if_neg high, if_neg low]

theorem joinPieces_pieces (before characters : List Char) :
    joinPieces before (characters.map pieceOf) = some (before.reverse ++ characters) := by
  induction characters generalizing before with
  | nil => simp [joinPieces]
  | cons character rest ih =>
    have step : joinPieces before (pieceOf character :: rest.map pieceOf) =
        joinPieces (character :: before) (rest.map pieceOf) := by
      unfold pieceOf
      split
      · rename_i control
        rw [joinPieces_unit control.1, Char.ofNat_toNat]
      · rfl
    rw [List.map_cons, step, ih, List.reverse_cons, List.append_assoc]
    rfl

theorem readPieces_escapes (before : List Piece) (characters rest : List Char) :
    readPieces before (characters.flatMap escape ++ '"' :: rest) =
      some (before.reverse ++ characters.map pieceOf, rest) := by
  induction characters generalizing before with
  | nil => simp [readPieces]
  | cons character later ih =>
    rw [List.flatMap_cons, List.append_assoc, readPieces_escape, ih, List.reverse_cons,
      List.append_assoc, List.map_cons]
    rfl

/-- A string is read back whatever its characters are. -/
theorem readString_escape (text : String) (rest : List Char) :
    readString (text.toList.flatMap escape ++ '"' :: rest) = some (some text, rest) := by
  rw [readString, readPieces_escapes, List.reverse_nil, List.nil_append]
  simp [joinPieces_pieces]

/-! ### Values -/

/-- A value that stands for a text of the grammar: all its strings and keys are texts. -/
inductive Value.WellFormed : Value → Prop where
  | null : WellFormed .null
  | bool (value : Bool) : WellFormed (.bool value)
  | number {numeral : Numeral} : numeral.WellFormed → WellFormed (.number numeral)
  | text (text : String) : WellFormed (.text text)
  | array {items : List Value} : (∀ item ∈ items, WellFormed item) → WellFormed (.array items)
  | record {members : List (String × Value)} :
      (∀ member ∈ members, WellFormed member.2) → WellFormed (.record members)

/-- A text that starts neither with white space nor with a closing bracket. -/
def Opens (text : List Char) : Prop :=
  ∃ c rest, text = c :: rest ∧ c ∉ [' ', '\t', '\n', '\r', ']']

theorem skipBlanks_cons {c : Char} (visible : c ∉ [' ', '\t', '\n', '\r', ']']) (rest : List Char) :
    skipBlanks (c :: rest) = c :: rest := by
  simp only [List.mem_cons, List.not_mem_nil, or_false, not_or] at visible
  obtain ⟨blank, tab, line, back, _⟩ := visible
  simp [skipBlanks, blank, tab, line, back]

theorem Opens.skipBlanks_append {text : List Char} (opens : Opens text) (rest : List Char) :
    skipBlanks (text ++ rest) = text ++ rest := by
  obtain ⟨c, later, rfl, visible⟩ := opens
  exact skipBlanks_cons visible (later ++ rest)

theorem Opens.append {text : List Char} (opens : Opens text) (rest : List Char) :
    Opens (text ++ rest) := by
  obtain ⟨c, later, rfl, visible⟩ := opens
  exact ⟨c, later ++ rest, rfl, visible⟩

/-- The first character of a numeral. -/
theorem Numeral.WellFormed.starts {numeral : Numeral} (wellFormed : numeral.WellFormed) :
    ∃ c rest, numeral.text.toList = c :: rest ∧ (c.isDigit = true ∨ c = '-') := by
  obtain ⟨digit, later, whole⟩ := List.exists_cons_of_ne_nil wellFormed.whole.1
  have isDigit : digit.isDigit = true := wellFormed.whole.2 digit (by simp [whole])
  rw [Numeral.toList_text, whole]
  cases numeral.negative with
  | true => exact ⟨'-', _, rfl, .inr rfl⟩
  | false => exact ⟨digit, _, rfl, .inl isDigit⟩

theorem Value.WellFormed.opens {value : Value} (wellFormed : value.WellFormed) :
    Opens value.compact.toList := by
  cases wellFormed with
  | null => exact ⟨'n', _, rfl, by decide⟩
  | bool value =>
    cases value with
    | true => exact ⟨'t', _, rfl, by decide⟩
    | false => exact ⟨'f', _, rfl, by decide⟩
  | number wellFormed =>
    obtain ⟨c, rest, starts, kind⟩ := wellFormed.starts
    refine ⟨c, rest, by rw [Value.compact, starts], ?_⟩
    rintro member
    simp only [List.mem_cons, List.not_mem_nil, or_false] at member
    rcases member with rfl | rfl | rfl | rfl | rfl <;> revert kind <;> decide
  | text text => exact ⟨'"', _, by simp [Value.compact, Value.text, quoted]; rfl, by decide⟩
  | array each => exact ⟨'[', _, by simp [Value.compact]; rfl, by decide⟩
  | record each => exact ⟨'\x7b', _, by simp [Value.compact, Value.record]; rfl, by decide⟩

/-- The compact text of a value is read back, whatever follows it. -/
def ReadsBack (value : Value) : Prop :=
  ∀ (fuel : Nat) (rest : List Char), value.compact.toList.length < fuel → Stops rest →
    readValue fuel (value.compact.toList ++ rest) = some (value, rest)

theorem readsBack_number {numeral : Numeral} (wellFormed : numeral.WellFormed) :
    ReadsBack (.number numeral) := by
  intro fuel rest enough stops
  have read := readNumber_text wellFormed stops
  have skip := (Value.WellFormed.number wellFormed).opens.skipBlanks_append rest
  obtain ⟨c, later, starts, kind⟩ := wellFormed.starts
  have others : c ∉ ['"', '[', '\x7b', 'n', 't', 'f'] := by
    intro member
    simp only [List.mem_cons, List.not_mem_nil, or_false] at member
    rcases member with rfl | rfl | rfl | rfl | rfl | rfl <;> revert kind <;> decide
  simp only [List.mem_cons, List.not_mem_nil, or_false, not_or] at others
  rw [Value.compact] at *
  rw [starts, List.cons_append] at read skip ⊢
  cases fuel with
  | zero => cases enough
  | succ fuel =>
    rw [readValue, skip]
    simp [others, read]

theorem readsBack_text (text : String) : ReadsBack (.text text) := by
  intro fuel rest enough _
  have chars : (Value.text text).compact.toList ++ rest =
      '"' :: (text.toList.flatMap escape ++ '"' :: rest) := by
    simp [Value.compact, Value.text, quoted]
  cases fuel with
  | zero => cases enough
  | succ fuel =>
    have skip : skipBlanks ('"' :: (text.toList.flatMap escape ++ '"' :: rest)) = _ :=
      skipBlanks_cons (by decide) _
    rw [chars, readValue, skip]
    simp [readString_escape, Value.text]

theorem toList_separated_cons (piece next : String) (rest : List String) :
    (separated "," (piece :: next :: rest)).toList =
      piece.toList ++ ',' :: (separated "," (next :: rest)).toList := by
  simp [separated]

theorem stops_cons {c : Char} (kind : c ∈ [',', ']', '\x7d']) (rest : List Char) :
    Stops (c :: rest) := by
  simp only [List.mem_cons, List.not_mem_nil, or_false] at kind
  rintro _ ⟨⟩
  rcases kind with rfl | rfl | rfl <;> decide

theorem readItems_compact {items : List Value} (some : items ≠ [])
    (each : ∀ item ∈ items, ReadsBack item) (before : List Value) (rest : List Char) {fuel : Nat}
    (enough : (separated "," (compactItems items)).toList.length + 1 < fuel) :
    readItems fuel before ((separated "," (compactItems items)).toList ++ ']' :: rest) =
      .some (before.reverse ++ items, rest) := by
  induction items generalizing before fuel with
  | nil => exact absurd rfl some
  | cons item later ih =>
    obtain ⟨first, others⟩ := List.forall_mem_cons.mp each
    cases fuel with
    | zero => cases enough
    | succ fuel =>
      cases later with
      | nil =>
        rw [compactItems, compactItems, separated] at enough ⊢
        have close : skipBlanks (']' :: rest) = ']' :: rest := rfl
        rw [readItems, first fuel _ (by omega) (stops_cons (by simp) rest)]
        simp [close]
      | cons next later =>
        rw [compactItems, compactItems, toList_separated_cons, ← compactItems] at enough ⊢
        rw [List.length_append, List.length_cons] at enough
        have comma (rest : List Char) : skipBlanks (',' :: rest) = ',' :: rest := rfl
        rw [List.append_assoc, List.cons_append, readItems,
          first fuel _ (by omega) (stops_cons (by simp) _)]
        simp only [comma]
        rw [ih (by simp) others (item :: before) (by omega), List.reverse_cons, List.append_assoc]
        rfl

/-- The text of a member. -/
def memberText (member : String × Value) : String := quoted member.1 ++ ":" ++ member.2.compact

theorem compactMembers_record (members : List (String × Value)) :
    compactMembers (members.map fun member => (some member.1, member.2)) =
      members.map memberText := by
  induction members with
  | nil => rfl
  | cons member rest ih =>
    rw [List.map_cons, compactMembers, ih]
    rfl

/-- A member is read up to the mark behind it. -/
theorem readMembers_member {member : String × Value} (back : ReadsBack member.2) {fuel : Nat}
    (enough : (memberText member).toList.length ≤ fuel) (before : List (Option String × Value))
    (rest : List Char) :
    readMembers (fuel + 1) before ((memberText member).toList ++ ',' :: rest) =
        readMembers fuel ((some member.1, member.2) :: before) rest ∧
      readMembers (fuel + 1) before ((memberText member).toList ++ '\x7d' :: rest) =
        some (((some member.1, member.2) :: before).reverse, rest) := by
  obtain ⟨key, value⟩ := member
  have chars (rest : List Char) : (memberText (key, value)).toList ++ rest =
      '"' :: (key.toList.flatMap escape ++ '"' :: ':' :: (value.compact.toList ++ rest)) := by
    simp [memberText, quoted]
  have size := congrArg List.length (chars [])
  simp only [List.length_append, List.length_cons, List.length_nil] at size
  have quote (rest : List Char) : skipBlanks ('"' :: rest) = '"' :: rest := rfl
  have colon (rest : List Char) : skipBlanks (':' :: rest) = ':' :: rest := rfl
  have comma : skipBlanks (',' :: rest) = ',' :: rest := rfl
  have brace : skipBlanks ('\x7d' :: rest) = '\x7d' :: rest := rfl
  have first := back fuel (',' :: rest) (by show value.compact.toList.length < fuel; omega)
    (stops_cons (by simp) rest)
  have last := back fuel ('\x7d' :: rest) (by show value.compact.toList.length < fuel; omega)
    (stops_cons (by simp) rest)
  constructor
  · rw [chars, readMembers]
    simp only [quote, readString_escape, colon, first, comma]
  · rw [chars, readMembers]
    simp only [quote, readString_escape, colon, last, brace]

theorem readMembers_compact {members : List (String × Value)} (some : members ≠ [])
    (each : ∀ member ∈ members, ReadsBack member.2) (before : List (Option String × Value))
    (rest : List Char) {fuel : Nat}
    (enough : (separated "," (members.map memberText)).toList.length + 1 < fuel) :
    readMembers fuel before ((separated "," (members.map memberText)).toList ++ '\x7d' :: rest) =
      .some (before.reverse ++ members.map fun member => (.some member.1, member.2), rest) := by
  induction members generalizing before fuel with
  | nil => exact absurd rfl some
  | cons member later ih =>
    obtain ⟨first, others⟩ := List.forall_mem_cons.mp each
    cases fuel with
    | zero => cases enough
    | succ fuel =>
      cases later with
      | nil =>
        rw [List.map_cons, List.map_nil, separated] at enough ⊢
        rw [(readMembers_member first (by omega) before rest).2, List.reverse_cons]
        rfl
      | cons next later =>
        rw [List.map_cons, List.map_cons, toList_separated_cons, ← List.map_cons] at enough ⊢
        rw [List.length_append, List.length_cons] at enough
        rw [List.append_assoc, List.cons_append, (readMembers_member first (by omega) before _).1,
          ih (by simp) others _ (by omega), List.reverse_cons, List.append_assoc]
        rfl

theorem readsBack_array {items : List Value} (wellFormed : ∀ item ∈ items, item.WellFormed)
    (each : ∀ item ∈ items, ReadsBack item) : ReadsBack (.array items) := by
  intro fuel rest enough _
  have chars : (Value.array items).compact.toList ++ rest =
      '[' :: ((separated "," (compactItems items)).toList ++ ']' :: rest) := by
    simp [Value.compact]
  have size := congrArg List.length chars
  simp only [List.length_append, List.length_cons] at size
  have bracket (rest : List Char) : skipBlanks ('[' :: rest) = '[' :: rest := rfl
  cases fuel with
  | zero => cases enough
  | succ fuel =>
    rw [chars, readValue, bracket]
    cases items with
    | nil => rfl
    | cons item later =>
      have room : (separated "," (compactItems (item :: later))).toList.length + 1 < fuel := by
        omega
      have read := readItems_compact (by simp) each [] rest room
      -- The first item starts with neither white space nor a closing bracket.
      have opens : Opens (separated "," (compactItems (item :: later))).toList := by
        have first := (wellFormed item List.mem_cons_self).opens
        cases later with
        | nil => exact first
        | cons next later =>
          rw [compactItems, compactItems, toList_separated_cons]
          exact first.append _
      have skip := opens.skipBlanks_append (']' :: rest)
      obtain ⟨c, front, starts, visible⟩ := opens
      simp only [List.mem_cons, List.not_mem_nil, or_false, not_or] at visible
      rw [starts, List.cons_append] at skip read ⊢
      simp [skip, visible, read]

theorem readsBack_record {members : List (String × Value)}
    (each : ∀ member ∈ members, ReadsBack member.2) : ReadsBack (.record members) := by
  intro fuel rest enough _
  have chars : (Value.record members).compact.toList ++ rest =
      '\x7b' :: ((separated "," (members.map memberText)).toList ++ '\x7d' :: rest) := by
    simp [Value.compact, Value.record, compactMembers_record]
  have size := congrArg List.length chars
  simp only [List.length_append, List.length_cons] at size
  have brace (rest : List Char) : skipBlanks ('\x7b' :: rest) = '\x7b' :: rest := rfl
  cases fuel with
  | zero => cases enough
  | succ fuel =>
    rw [chars, readValue, brace]
    cases members with
    | nil => rfl
    | cons member later =>
      have room : (separated "," ((member :: later).map memberText)).toList.length + 1 < fuel := by
        omega
      have read := readMembers_compact (by simp) each [] rest room
      -- A member starts with a quote.
      have quote : ∃ front, (separated "," ((member :: later).map memberText)).toList =
          '"' :: front := by
        cases later with
        | nil => exact ⟨_, by simp [separated, memberText, quoted]; rfl⟩
        | cons next later => exact ⟨_, by simp [separated, memberText, quoted]; rfl⟩
      obtain ⟨front, starts⟩ := quote
      have skip (rest : List Char) : skipBlanks ('"' :: rest) = '"' :: rest := rfl
      rw [starts, List.cons_append] at read ⊢
      simp [skip, read, Value.record]

theorem Value.WellFormed.readsBack {value : Value} (wellFormed : value.WellFormed) :
    ReadsBack value := by
  induction wellFormed with
  | null =>
    intro fuel rest enough _
    cases fuel with
    | zero => cases enough
    | succ fuel => rfl
  | bool value =>
    intro fuel rest enough _
    cases fuel with
    | zero => cases enough
    | succ fuel => cases value <;> rfl
  | number numeral => exact readsBack_number numeral
  | text text => exact readsBack_text text
  | array items ih => exact readsBack_array items ih
  | record members ih => exact readsBack_record ih

/-- The compact text of a value stands for the value. -/
theorem parse_compact {value : Value} (wellFormed : value.WellFormed) :
    parse value.compact = some value := by
  have stops : Stops [] := by
    intro c member
    cases member
  have read := wellFormed.readsBack (2 * value.compact.toList.length + 1) [] (by omega) stops
  rw [List.append_nil] at read
  simp [parse, read, skipBlanks]

end Sbe.Json
