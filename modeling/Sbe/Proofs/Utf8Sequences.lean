import Mathlib.Data.List.Forall2
import Sbe.Proofs.Charset

/-!
**Well-formed UTF-8, and what stands for the rest.**

The Unicode standard lists the well-formed sequences of bytes by the ranges that their bytes lie in.
They are the forms of characters and nothing else: longer forms of small codes, surrogates and codes
past the last character have no row. Where bytes do not start with a sequence, the longest beginning
of one, or else a single byte, stands for one replacement character.

* `IsSequence`, `WellFormed`: the sequences, and bytes made of them;
* `exists_character`, `isSequence_utf8EncodeChar`: sequences are the forms of characters;
* `decode_eq_iff_deciphers`: decoding replaces longest beginnings;
* `encode_decode_eq_iff`: only well-formed bytes are written back as they were.
-/

namespace Sbe.Text.Utf8

/-! ### Sequences -/

/-- Whether a byte lies in a range. -/
def InRange (range : UInt8 × UInt8) (byte : UInt8) : Prop := range.1 ≤ byte ∧ byte ≤ range.2

/-- The well-formed sequences: each row has the ranges of their bytes. -/
def sequences : List (List (UInt8 × UInt8)) :=
  [[(0x00, 0x7f)],
    [(0xc2, 0xdf), (0x80, 0xbf)],
    [(0xe0, 0xe0), (0xa0, 0xbf), (0x80, 0xbf)],
    [(0xe1, 0xec), (0x80, 0xbf), (0x80, 0xbf)],
    [(0xed, 0xed), (0x80, 0x9f), (0x80, 0xbf)],
    [(0xee, 0xef), (0x80, 0xbf), (0x80, 0xbf)],
    [(0xf0, 0xf0), (0x90, 0xbf), (0x80, 0xbf), (0x80, 0xbf)],
    [(0xf1, 0xf3), (0x80, 0xbf), (0x80, 0xbf), (0x80, 0xbf)],
    [(0xf4, 0xf4), (0x80, 0x8f), (0x80, 0xbf), (0x80, 0xbf)]]

/-- Bytes that form one sequence. -/
def IsSequence (bytes : List UInt8) : Prop := ∃ row ∈ sequences, List.Forall₂ InRange row bytes

/-- Bytes made of sequences only. -/
inductive WellFormed : List UInt8 → Prop
  | nil : WellFormed []
  | append {sequence rest : List UInt8} (first : IsSequence sequence) (later : WellFormed rest) :
      WellFormed (sequence ++ rest)

/-- Bytes that a sequence begins with. -/
def Begins (bytes : List UInt8) : Prop := ∃ rest, IsSequence (bytes ++ rest)

variable {byte : UInt8} {bytes rest : List UInt8} {ranges : List (UInt8 × UInt8)}

theorem inRange_iff {low high : UInt8} :
    InRange (low, high) byte ↔ low.toNat ≤ byte.toNat ∧ byte.toNat ≤ high.toNat := by
  rw [InRange, UInt8.le_iff_toNat_le, UInt8.le_iff_toNat_le]

/-- The first byte of a sequence says what must follow it. -/
theorem lead?_of_row {range : UInt8 × UInt8} (row : range :: ranges ∈ sequences)
    (inside : InRange range byte) : ∃ code, lead? byte = some (code, ranges) := by
  simp only [sequences, List.mem_cons, List.cons.injEq, List.not_mem_nil, or_false] at row
  rcases row with ⟨rfl, rfl⟩ | ⟨rfl, rfl⟩ | ⟨rfl, rfl⟩ | ⟨rfl, rfl⟩ | ⟨rfl, rfl⟩ | ⟨rfl, rfl⟩ |
    ⟨rfl, rfl⟩ | ⟨rfl, rfl⟩ | ⟨rfl, rfl⟩
  all_goals
    simp only [inRange_iff, UInt8.reduceToNat] at inside
    simp (disch := omega) only [lead?_eq, if_pos, if_neg]
    exact ⟨_, rfl⟩

/-- A lead byte is the first byte of a row. -/
theorem row_of_lead? {code : Nat} (lead : lead? byte = some (code, ranges)) :
    ∃ range, range :: ranges ∈ sequences ∧ InRange range byte := by
  by_cases apart : ∀ row ∈ sequences, ∀ range ∈ row.head?, ¬ InRange range byte
  · have none : lead? byte = none := by
      simp only [sequences, List.forall_mem_cons, List.head?_cons, Option.mem_some_iff, forall_eq',
        inRange_iff, UInt8.reduceToNat] at apart
      simp (disch := omega) only [lead?_eq, if_neg, ite_self]
    rw [none] at lead
    cases lead
  · push Not at apart
    obtain ⟨row, member, range, first, inside⟩ := apart
    obtain ⟨later, rfl⟩ := List.head?_eq_some_iff.mp first
    obtain ⟨other, same⟩ := lead?_of_row member inside
    rw [lead] at same
    cases same
    exact ⟨range, member, inside⟩

theorem isSequence_cons_iff : IsSequence (byte :: bytes) ↔
    ∃ code ranges, lead? byte = some (code, ranges) ∧ List.Forall₂ InRange ranges bytes := by
  constructor
  · rintro ⟨row, member, matched⟩
    cases matched with
    | cons inside later =>
      obtain ⟨code, lead⟩ := lead?_of_row member inside
      exact ⟨code, _, lead, later⟩
  · rintro ⟨code, ranges, lead, matched⟩
    obtain ⟨range, row, inside⟩ := row_of_lead? lead
    exact ⟨_, row, .cons inside matched⟩

theorem not_isSequence_nil : ¬ IsSequence [] := by
  rintro ⟨row, member, matched⟩
  cases matched
  simp [sequences] at member

/-! ### Sequences and characters -/

theorem exists_character_of_code {code : Nat} (valid : code.isValidChar) :
    ∃ character : Char, character.val.toNat = code :=
  ⟨Char.ofNat code, by rw [Char.ofNat, dif_pos valid]; rfl⟩

section

variable {first second third fourth : UInt8}

theorem exists_character_two (lead : 0xc2 ≤ first.toNat ∧ first.toNat < 0xe0)
    (tail : 0x80 ≤ second.toNat ∧ second.toNat ≤ 0xbf) :
    ∃ character, String.utf8EncodeChar character = [first, second] := by
  obtain ⟨code, value⟩ : ∃ code, code = first.toNat % 32 * 64 + second.toNat % 64 := ⟨_, rfl⟩
  obtain ⟨character, same⟩ := exists_character_of_code (.inl (by omega) : code.isValidChar)
  refine ⟨character, ?_⟩
  simp only [String.utf8EncodeChar, same]
  rw [if_neg (by omega), if_pos (by omega), show code / 64 % 32 + 192 = first.toNat by omega,
    show code % 64 + 128 = second.toNat by omega, UInt8.ofNat_toNat, UInt8.ofNat_toNat]

/-- The second byte of three rules out longer forms of small codes, and surrogates. -/
theorem exists_character_three (lead : 0xe0 ≤ first.toNat ∧ first.toNat < 0xf0)
    (tail : 0x80 ≤ second.toNat ∧ second.toNat ≤ 0xbf)
    (last : 0x80 ≤ third.toNat ∧ third.toNat ≤ 0xbf)
    (shortest : first.toNat = 0xe0 → 0xa0 ≤ second.toNat)
    (scalar : first.toNat = 0xed → second.toNat ≤ 0x9f) :
    ∃ character, String.utf8EncodeChar character = [first, second, third] := by
  obtain ⟨code, value⟩ :
      ∃ code, code = (first.toNat % 16 * 64 + second.toNat % 64) * 64 + third.toNat % 64 := ⟨_, rfl⟩
  have valid : code.isValidChar := by
    unfold Nat.isValidChar
    omega
  obtain ⟨character, same⟩ := exists_character_of_code valid
  refine ⟨character, ?_⟩
  simp only [String.utf8EncodeChar, same]
  rw [if_neg (by omega), if_neg (by omega), if_pos (by omega),
    show code / 4096 % 16 + 224 = first.toNat by omega,
    show code / 64 % 64 + 128 = second.toNat by omega,
    show code % 64 + 128 = third.toNat by omega,
    UInt8.ofNat_toNat, UInt8.ofNat_toNat, UInt8.ofNat_toNat]

/-- The second byte of four rules out longer forms of small codes, and codes past the last
character. -/
theorem exists_character_four (lead : 0xf0 ≤ first.toNat ∧ first.toNat < 0xf5)
    (tail : 0x80 ≤ second.toNat ∧ second.toNat ≤ 0xbf)
    (next : 0x80 ≤ third.toNat ∧ third.toNat ≤ 0xbf)
    (last : 0x80 ≤ fourth.toNat ∧ fourth.toNat ≤ 0xbf)
    (shortest : first.toNat = 0xf0 → 0x90 ≤ second.toNat)
    (small : first.toNat = 0xf4 → second.toNat ≤ 0x8f) :
    ∃ character, String.utf8EncodeChar character = [first, second, third, fourth] := by
  obtain ⟨code, value⟩ : ∃ code, code = ((first.toNat % 8 * 64 + second.toNat % 64) * 64 +
      third.toNat % 64) * 64 + fourth.toNat % 64 :=
    ⟨_, rfl⟩
  have valid : code.isValidChar := by
    unfold Nat.isValidChar
    omega
  obtain ⟨character, same⟩ := exists_character_of_code valid
  refine ⟨character, ?_⟩
  simp only [String.utf8EncodeChar, same]
  rw [if_neg (by omega), if_neg (by omega), if_neg (by omega),
    show code / 262144 % 8 + 240 = first.toNat by omega,
    show code / 4096 % 64 + 128 = second.toNat by omega,
    show code / 64 % 64 + 128 = third.toNat by omega,
    show code % 64 + 128 = fourth.toNat by omega,
    UInt8.ofNat_toNat, UInt8.ofNat_toNat, UInt8.ofNat_toNat, UInt8.ofNat_toNat]

end

/-- A sequence is the form of a character. -/
theorem exists_character (sequence : IsSequence bytes) :
    ∃ character, String.utf8EncodeChar character = bytes := by
  cases bytes with
  | nil => exact absurd sequence not_isSequence_nil
  | cons byte bytes =>
    obtain ⟨code, ranges, lead, matched⟩ := isSequence_cons_iff.mp sequence
    rw [lead?_eq] at lead
    -- The size of the lead byte says how many ranges follow, and so how many bytes there are.
    split at lead
    · next one =>
      cases lead
      cases matched
      obtain ⟨character, same⟩ :=
        exists_character_of_code (.inl (by omega) : byte.toNat.isValidChar)
      refine ⟨character, ?_⟩
      simp only [String.utf8EncodeChar, same]
      rw [if_pos (by omega), UInt8.ofNat_toNat]
    split at lead
    · cases lead
    split at lead
    · next two =>
      cases lead
      cases matched with
      | cons tail matched =>
        cases matched
        exact exists_character_two ⟨by omega, two⟩ (inRange_iff.mp tail)
    split at lead
    · next three =>
      cases lead
      cases matched with
      | cons second matched =>
        cases matched with
        | cons last matched =>
          cases matched
          rw [inRange_iff] at second
          refine exists_character_three ⟨by omega, three⟩ ?_ (inRange_iff.mp last) (fun e0 => ?_)
            fun ed => ?_
          · split_ifs at second <;> simp only [UInt8.reduceToNat] at second <;> omega
          · rw [if_pos e0] at second
            exact second.1
          · rw [if_pos ed] at second
            exact second.2
    split at lead
    · next four =>
      cases lead
      cases matched with
      | cons second matched =>
        cases matched with
        | cons third matched =>
          cases matched with
          | cons last matched =>
            cases matched
            rw [inRange_iff] at second
            refine exists_character_four ⟨by omega, four⟩ ?_ (inRange_iff.mp third)
              (inRange_iff.mp last) (fun f0 => ?_) fun f4 => ?_
            · split_ifs at second <;> simp only [UInt8.reduceToNat] at second <;> omega
            · rw [if_pos f0] at second
              exact second.1
            · rw [if_pos f4] at second
              exact second.2
    · cases lead

theorem follow_eq_some {code result : Nat} (done : follow ranges code bytes = (some result, rest)) :
    ∃ part, bytes = part ++ rest ∧ List.Forall₂ InRange ranges part := by
  fun_induction follow ranges code bytes with
  | case1 code bytes =>
    cases done
    exact ⟨[], rfl, .nil⟩
  | case2 => cases done
  | case3 low high ranges code byte bytes inside ih =>
    obtain ⟨part, rfl, matched⟩ := ih done
    exact ⟨byte :: part, rfl, .cons inside matched⟩
  | case4 => cases done

/-- The form of a character is a sequence. -/
theorem isSequence_utf8EncodeChar (character : Char) :
    IsSequence (String.utf8EncodeChar character) := by
  obtain ⟨byte, more, first, ranges, same, lead, followed⟩ := reads_utf8EncodeChar character
  obtain ⟨part, whole, matched⟩ := follow_eq_some (followed [])
  rw [List.append_nil, List.append_nil] at whole
  rw [same, whole]
  exact isSequence_cons_iff.mpr ⟨first, ranges, lead, matched⟩

/-- Well-formed bytes are those of texts. -/
theorem wellFormed_iff : WellFormed bytes ↔ ∃ text, encode text = bytes := by
  constructor
  · intro formed
    induction formed with
    | nil => exact ⟨[], rfl⟩
    | append first later ih =>
      obtain ⟨character, rfl⟩ := exists_character first
      obtain ⟨text, rfl⟩ := ih
      exact ⟨character :: text, List.flatMap_cons ..⟩
  · rintro ⟨text, rfl⟩
    induction text with
    | nil => exact .nil
    | cons character text ih =>
      rw [encode, List.flatMap_cons]
      exact .append (isSequence_utf8EncodeChar character) ih

/-- Only well-formed bytes are written back as they were. -/
theorem encode_decode_eq_iff : encode (decode bytes) = bytes ↔ WellFormed bytes := by
  rw [wellFormed_iff]
  constructor
  · exact fun same => ⟨decode bytes, same⟩
  · rintro ⟨text, rfl⟩
    rw [decode_encode]

/-! ### Replacement -/

/-- Bytes in front of others that stand for one replacement character: no sequence stands there, and
they are the longest beginning of one, or else a single byte. -/
structure IsMalformed (bad rest : List UInt8) : Prop where
  nonempty : bad ≠ []
  none : ∀ sequence, IsSequence sequence → ¬ sequence <+: bad ++ rest
  beginning : bad.length = 1 ∨ Begins bad
  longest : ∀ more, more ≠ [] → more <+: rest → ¬ Begins (bad ++ more)

/-- How bytes are read: a sequence gives its character, and malformed bytes give one replacement
character. -/
inductive Deciphers : List UInt8 → List Char → Prop
  | nil : Deciphers [] []
  | character (character : Char) {rest : List UInt8} {text : List Char}
    (later : Deciphers rest text) : Deciphers (String.utf8EncodeChar character ++ rest)
    (character :: text)
  | malformed {bad rest : List UInt8} {text : List Char} (here : IsMalformed bad rest)
      (later : Deciphers rest text) : Deciphers (bad ++ rest) (replacement :: text)

/-- Reading stops at the first byte that does not fit. -/
theorem follow_eq_none {code : Nat} (stopped : follow ranges code bytes = (none, rest)) :
    ∃ front range back part, ranges = front ++ range :: back ∧ bytes = part ++ rest ∧
      List.Forall₂ InRange front part ∧ ∀ byte ∈ rest.head?, ¬ InRange range byte := by
  fun_induction follow ranges code bytes with
  | case1 => cases stopped
  | case2 range ranges code =>
    cases stopped
    exact ⟨[], range, ranges, [], rfl, rfl, .nil, fun byte found => by cases found⟩
  | case3 low high ranges code byte bytes inside ih =>
    obtain ⟨front, range, back, part, rfl, rfl, matched, stop⟩ := ih stopped
    exact ⟨(low, high) :: front, range, back, byte :: part, rfl, rfl, .cons inside matched, stop⟩
  | case4 low high ranges code byte bytes outside =>
    cases stopped
    exact ⟨[], (low, high), ranges, [], rfl, rfl, .nil,
      fun other found => by cases found; exact outside⟩

theorem not_forall₂_of_stop {front back : List (UInt8 × UInt8)} {range : UInt8 × UInt8}
    {part : List UInt8} (matched : List.Forall₂ InRange front part) (outside : ¬ InRange range byte)
    (later : List UInt8) :
    ¬ List.Forall₂ InRange (front ++ range :: back) (part ++ byte :: later) := by
  induction matched with
  | nil =>
    intro all
    cases all with
    | cons inside _ => exact outside inside
  | cons _ _ ih =>
    intro all
    cases all with
    | cons _ all => exact ih all

/-- What a row still asks for can be had. -/
theorem forall₂_completion {row : List (UInt8 × UInt8)} (member : row ∈ sequences)
    {asked : List (UInt8 × UInt8)} (part : asked ⊆ row) :
    List.Forall₂ InRange asked (asked.map Prod.fst) := by
  have ordered : (sequences.all fun row => row.all fun range => range.1 ≤ range.2) = true := by
    decide
  refine List.forall₂_map_right_iff.mpr (List.forall₂_same.mpr fun range asks => ?_)
  have inOrder := List.all_eq_true.mp (List.all_eq_true.mp ordered row member) range (part asks)
  exact ⟨UInt8.le_refl _, of_decide_eq_true inOrder⟩

/-- Bytes that stop fitting are the longest beginning of a sequence: what begins with them and the
byte behind them has no row. -/
theorem isMalformed_of_follow {code : Nat} (lead : lead? byte = some (code, ranges))
    (stopped : follow ranges code bytes = (none, rest)) :
    ∃ part, bytes = part ++ rest ∧ IsMalformed (byte :: part) rest := by
  obtain ⟨front, range, back, part, rfl, rfl, matched, stop⟩ := follow_eq_none stopped
  have rowOf {later : List UInt8} (formed : IsSequence (byte :: later)) :
      List.Forall₂ InRange (front ++ range :: back) later := by
    obtain ⟨other, others, again, all⟩ := isSequence_cons_iff.mp formed
    rw [lead] at again
    cases again
    exact all
  have noMore {next : UInt8} {more : List UInt8} (ahead : next :: more <+: rest)
      (behind : List UInt8) : ¬ IsSequence (byte :: (part ++ next :: behind)) := by
    obtain ⟨later, rfl⟩ := ahead
    exact fun formed => not_forall₂_of_stop matched (stop next rfl) behind (rowOf formed)
  refine ⟨part, rfl, List.cons_ne_nil _ _, ?_, .inr ?_, ?_⟩
  · rintro (_ | ⟨first, sequence⟩) formed ahead
    · exact not_isSequence_nil formed
    · obtain ⟨rfl, shorter⟩ := List.cons_prefix_cons.mp ahead
      have longer : part.length < sequence.length := by
        rw [← (rowOf formed).length_eq, ← matched.length_eq, List.length_append, List.length_cons]
        omega
      obtain ⟨more, rfl⟩ :=
        List.prefix_of_prefix_length_le (List.prefix_append part rest) shorter (Nat.le_of_lt longer)
      have within : more <+: rest := (List.prefix_append_right_inj part).mp shorter
      cases more with
      | nil => simp at longer
      | cons next more => exact noMore within more formed
  · obtain ⟨first, row, inside⟩ := row_of_lead? lead
    refine ⟨(range :: back).map Prod.fst, _, row, .cons inside (List.rel_append matched ?_)⟩
    exact forall₂_completion row
      (List.Subset.trans (List.subset_append_right front _) (List.subset_cons_self first _))
  · rintro (_ | ⟨next, more⟩) filled ahead ⟨behind, formed⟩
    · exact filled rfl
    · rw [List.append_assoc] at formed
      exact noMore ahead (more ++ behind) formed

/-- A byte that no sequence starts with is malformed on its own. -/
theorem isMalformed_of_lead? (lead : lead? byte = none) (rest : List UInt8) :
    IsMalformed [byte] rest := by
  have noSequence (later : List UInt8) : ¬ IsSequence (byte :: later) := by
    intro formed
    obtain ⟨code, ranges, found, _⟩ := isSequence_cons_iff.mp formed
    rw [lead] at found
    cases found
  refine ⟨List.cons_ne_nil _ _, ?_, .inl rfl, fun more _ _ ⟨behind, formed⟩ => noSequence _ formed⟩
  rintro (_ | ⟨first, sequence⟩) formed ahead
  · exact not_isSequence_nil formed
  · obtain ⟨rfl, _⟩ := List.cons_prefix_cons.mp ahead
    exact noSequence sequence formed

/-- Bytes start with the form of a character, or malformed bytes stand in front. -/
theorem decode_cases (byte : UInt8) (bytes : List UInt8) :
    (∃ character rest, byte :: bytes = String.utf8EncodeChar character ++ rest) ∨
      ∃ bad rest, byte :: bytes = bad ++ rest ∧ IsMalformed bad rest ∧
        decode (byte :: bytes) = replacement :: decode rest := by
  cases lead : lead? byte with
  | none =>
    refine .inr ⟨[byte], bytes, rfl, isMalformed_of_lead? lead bytes, decode_cons ?_⟩
    rw [next, lead]
  | some found =>
    obtain ⟨code, ranges⟩ := found
    cases ended : follow ranges code bytes with
    | mk result rest =>
      cases result with
      | some result =>
        obtain ⟨part, rfl, matched⟩ := follow_eq_some ended
        obtain ⟨character, same⟩ :=
          exists_character (isSequence_cons_iff.mpr ⟨code, ranges, lead, matched⟩)
        exact .inl ⟨character, rest, by rw [same]; rfl⟩
      | none =>
        obtain ⟨part, rfl, malformed⟩ := isMalformed_of_follow lead ended
        refine .inr ⟨byte :: part, rest, rfl, malformed, decode_cons ?_⟩
        rw [next, lead]
        dsimp only
        rw [ended]

/-- There is one way to cut malformed bytes off. -/
theorem IsMalformed.length_le {bad rest other later : List UInt8} (malformed : IsMalformed bad rest)
    (again : IsMalformed other later) (same : bad ++ rest = other ++ later) :
    other.length ≤ bad.length := by
  by_contra longer
  have cut : bad <+: other :=
    List.prefix_of_prefix_length_le (List.prefix_append bad rest) ⟨later, same.symm⟩ (by omega)
  obtain ⟨more, rfl⟩ := cut
  have nonempty := List.length_pos_iff.mpr malformed.nonempty
  rw [List.length_append] at longer
  have begins : Begins (bad ++ more) := by
    refine again.beginning.resolve_left fun single => ?_
    rw [List.length_append] at single
    omega
  refine malformed.longest more (List.length_pos_iff.mp (by omega)) ?_ begins
  rw [List.append_assoc, List.append_cancel_left_eq] at same
  exact ⟨later, same.symm⟩

theorem IsMalformed.decode_append {bad rest : List UInt8} (malformed : IsMalformed bad rest) :
    decode (bad ++ rest) = replacement :: decode rest := by
  obtain ⟨byte, bytes, whole⟩ := List.exists_cons_of_ne_nil malformed.nonempty
  have first : bad ++ rest = byte :: (bytes ++ rest) := by rw [whole]; rfl
  rcases decode_cases byte (bytes ++ rest)
    with ⟨character, later, formed⟩ | ⟨other, later, cut, again, read⟩
  · refine absurd ⟨later, ?_⟩ (malformed.none _ (isSequence_utf8EncodeChar character))
    rw [first, formed]
  · have same : bad ++ rest = other ++ later := first.trans cut
    have length : bad.length = other.length :=
      Nat.le_antisymm (again.length_le malformed same.symm) (malformed.length_le again same)
    obtain ⟨_, rfl⟩ := List.append_inj same length
    rw [first, read]

/-- Decoding reads bytes as they are to be read, and there is no other way. -/
theorem decode_eq_iff_deciphers {text : List Char} :
    decode bytes = text ↔ Deciphers bytes text := by
  constructor
  · rintro rfl
    induction size : bytes.length using Nat.strong_induction_on generalizing bytes with
    | _ count ih =>
      cases bytes with
      | nil =>
        rw [decode]
        exact .nil
      | cons byte bytes =>
        rcases decode_cases byte bytes
          with ⟨character, rest, formed⟩ | ⟨bad, rest, cut, malformed, read⟩
        · have nonempty : String.utf8EncodeChar character ≠ [] := fun empty =>
            not_isSequence_nil (empty ▸ isSequence_utf8EncodeChar character)
          have longer := List.length_pos_iff.mpr nonempty
          have shorter : rest.length < count := by
            rw [← size, formed, List.length_append]
            omega
          rw [formed, decode_utf8EncodeChar]
          exact .character character (ih _ shorter rfl)
        · have longer := List.length_pos_iff.mpr malformed.nonempty
          have shorter : rest.length < count := by
            rw [← size, cut, List.length_append]
            omega
          rw [read, cut]
          exact .malformed malformed (ih _ shorter rfl)
  · intro deciphers
    induction deciphers with
    | nil => rw [decode]
    | character character later ih => rw [decode_utf8EncodeChar, ih]
    | malformed here later ih => rw [here.decode_append, ih]

end Sbe.Text.Utf8
