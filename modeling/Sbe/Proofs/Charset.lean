import Mathlib.Data.List.TakeWhile
import Sbe.Text.Charset

/-!
**Texts are read back from their bytes.**

* `Utf8.decode_encode`: every text in UTF-8;
* `Charset.encodeUpTo_eq`: the texts that sets of one byte hold;
* `Charset.decode_ascii`: texts in ASCII;
* `Charset.decode_beforeNul`: what a field of fixed length keeps of a text in ASCII.
-/

namespace Sbe.Text

/-! ### UTF-8 -/

namespace Utf8

theorem toNat_byte {number : Nat} (small : number < 256) : (UInt8.ofNat number).toNat = number :=
  UInt8.toNat_ofNat_of_lt' small

/-- What a lead byte says, by its number. -/
theorem lead?_eq (byte : UInt8) : lead? byte =
    if byte.toNat < 0x80 then some (byte.toNat, [])
    else if byte.toNat < 0xc2 then none
    else if byte.toNat < 0xe0 then some (byte.toNat % 32, [(0x80, 0xbf)])
    else if byte.toNat < 0xf0 then
      some (byte.toNat % 16, [(if byte.toNat = 0xe0 then 0xa0 else 0x80,
        if byte.toNat = 0xed then 0x9f else 0xbf), (0x80, 0xbf)])
    else if byte.toNat < 0xf5 then
      some (byte.toNat % 8, [(if byte.toNat = 0xf0 then 0x90 else 0x80,
        if byte.toNat = 0xf4 then 0x8f else 0xbf), (0x80, 0xbf), (0x80, 0xbf)])
    else none := by
  simp only [lead?, UInt8.lt_iff_toNat_lt, ← UInt8.toNat_inj]
  rfl

/-- A byte in its range adds six bits. -/
theorem follow_cons {low high : UInt8} {number : Nat} (above : low.toNat ≤ number)
    (below : number ≤ high.toNat) (ranges : List (UInt8 × UInt8)) (code : Nat)
    (bytes : List UInt8) :
    follow ((low, high) :: ranges) code (UInt8.ofNat number :: bytes) =
      follow ranges (code * 64 + number % 64) bytes := by
  have value : (UInt8.ofNat number).toNat = number :=
    toNat_byte (Nat.lt_of_le_of_lt below high.toNat_lt)
  have inside : low ≤ UInt8.ofNat number ∧ UInt8.ofNat number ≤ high := by
    rw [UInt8.le_iff_toNat_le, UInt8.le_iff_toNat_le, value]
    exact ⟨above, below⟩
  rw [follow, if_pos inside, value]

/-- Bytes that are read as one code, whatever follows them: the first leads, and the others lie in
the ranges it asks for. -/
def Reads (bytes : List UInt8) (code : Nat) : Prop :=
  ∃ byte more first ranges, bytes = byte :: more ∧ lead? byte = some (first, ranges) ∧
    ∀ rest, follow ranges first (more ++ rest) = (some code, rest)

theorem reads_one {code : Nat} (below : code ≤ 0x7f) : Reads [UInt8.ofNat code] code := by
  refine ⟨_, [], code, [], rfl, ?_, fun rest => by rw [List.nil_append, follow]⟩
  rw [lead?_eq, toNat_byte (by omega), if_pos (by omega)]

theorem reads_two {code : Nat} (above : 0x7f < code) (below : code ≤ 0x7ff) :
    Reads [UInt8.ofNat (code / 64 % 0x20 + 0xc0), UInt8.ofNat (code % 0x40 + 0x80)] code := by
  refine ⟨_, _, code / 64, [(0x80, 0xbf)], rfl, ?_, fun rest => ?_⟩
  · rw [lead?_eq, toNat_byte (by omega), if_neg (by omega), if_neg (by omega), if_pos (by omega),
      show (code / 64 % 0x20 + 0xc0) % 32 = code / 64 by omega]
  · rw [List.singleton_append, follow_cons (by show 0x80 ≤ _; omega) (by show _ ≤ 0xbf; omega),
      follow, show code / 64 * 64 + (code % 0x40 + 0x80) % 64 = code by omega]

theorem reads_three {code : Nat} (above : 0x7ff < code) (below : code ≤ 0xffff)
    (scalar : code < 0xd800 ∨ 0xdfff < code) :
    Reads [UInt8.ofNat (code / 4096 % 0x10 + 0xe0), UInt8.ofNat (code / 64 % 0x40 + 0x80),
      UInt8.ofNat (code % 0x40 + 0x80)] code := by
  have lead := lead?_eq (UInt8.ofNat (code / 4096 % 0x10 + 0xe0))
  rw [toNat_byte (by omega), if_neg (by omega), if_neg (by omega), if_neg (by omega),
    if_pos (by omega), show (code / 4096 % 0x10 + 0xe0) % 16 = code / 4096 by omega] at lead
  refine ⟨_, _, _, _, rfl, lead, fun rest => ?_⟩
  -- The range of the second byte leaves out longer forms of small codes, and the surrogates.
  rw [List.cons_append, List.singleton_append, follow_cons,
    follow_cons (by show 0x80 ≤ _; omega) (by show _ ≤ 0xbf; omega), follow,
    show (code / 4096 * 64 + (code / 64 % 0x40 + 0x80) % 64) * 64 + (code % 0x40 + 0x80) % 64 = code
      by omega]
  all_goals split_ifs <;> simp only [UInt8.reduceToNat] <;> omega

theorem reads_four {code : Nat} (above : 0xffff < code) (below : code ≤ 0x10ffff) :
    Reads [UInt8.ofNat (code / 262144 % 0x08 + 0xf0), UInt8.ofNat (code / 4096 % 0x40 + 0x80),
      UInt8.ofNat (code / 64 % 0x40 + 0x80), UInt8.ofNat (code % 0x40 + 0x80)] code := by
  have lead := lead?_eq (UInt8.ofNat (code / 262144 % 0x08 + 0xf0))
  rw [toNat_byte (by omega), if_neg (by omega), if_neg (by omega), if_neg (by omega),
    if_neg (by omega), if_pos (by omega),
    show (code / 262144 % 0x08 + 0xf0) % 8 = code / 262144 by omega] at lead
  refine ⟨_, _, _, _, rfl, lead, fun rest => ?_⟩
  rw [List.cons_append, List.cons_append, List.singleton_append, follow_cons,
    follow_cons (by show 0x80 ≤ _; omega) (by show _ ≤ 0xbf; omega),
    follow_cons (by show 0x80 ≤ _; omega) (by show _ ≤ 0xbf; omega), follow,
    show ((code / 262144 * 64 + (code / 4096 % 0x40 + 0x80) % 64) * 64 +
      (code / 64 % 0x40 + 0x80) % 64) * 64 + (code % 0x40 + 0x80) % 64 = code by omega]
  all_goals split_ifs <;> simp only [UInt8.reduceToNat] <;> omega

/-- The bytes of a character are read as its code. -/
theorem reads_utf8EncodeChar (character : Char) :
    Reads (String.utf8EncodeChar character) character.toNat := by
  have scalar := character.valid
  simp only [UInt32.isValidChar, Nat.isValidChar] at scalar
  unfold String.utf8EncodeChar
  dsimp only
  split
  · next one => exact reads_one one
  split
  · next two => exact reads_two (by omega) two
  split
  · next three => exact reads_three (by omega) three (by omega)
  · exact reads_four (by omega) (by omega)

theorem decode_cons {byte : UInt8} {bytes rest : List UInt8} {character : Char}
    (read : next byte bytes = (character, rest)) :
    decode (byte :: bytes) = character :: decode rest := by
  rw [decode, read]

/-- A character is read back from its bytes, whatever follows them. -/
theorem decode_utf8EncodeChar (character : Char) (rest : List UInt8) :
    decode (String.utf8EncodeChar character ++ rest) = character :: decode rest := by
  obtain ⟨byte, more, first, ranges, same, lead, followed⟩ := reads_utf8EncodeChar character
  rw [same, List.cons_append]
  refine decode_cons ?_
  rw [next, lead]
  dsimp only
  rw [followed rest]
  dsimp only
  rw [Char.ofNat_toNat]

/-- Every text is read back from its bytes. -/
theorem decode_encode (text : List Char) : decode (encode text) = text := by
  induction text with
  | nil => rw [encode, List.flatMap_nil, decode]
  | cons character rest ih =>
    rw [encode, List.flatMap_cons, decode_utf8EncodeChar]
    exact congrArg (character :: ·) ih

end Utf8

/-! ### ASCII -/

namespace Charset

/-- The bytes of characters that have one byte each. -/
def oneByte (characters : List Char) : List UInt8 :=
  characters.map fun character => UInt8.ofNat character.toNat

theorem encodeUpTo_eq {limit : Nat} {characters : List Char}
    (small : ∀ character ∈ characters, character.toNat ≤ limit) :
    encodeUpTo limit characters = .ok (oneByte characters) := by
  induction characters with
  | nil => rfl
  | cons character rest ih =>
    obtain ⟨first, later⟩ := List.forall_mem_cons.mp small
    rw [encodeUpTo, if_pos first, ih later]
    rfl

theorem decodeAscii_ofNat {character : Char} (small : character.toNat ≤ 0x7f) :
    decodeAscii (UInt8.ofNat character.toNat) = character := by
  have value : (UInt8.ofNat character.toNat).toNat = character.toNat :=
    Utf8.toNat_byte (by omega)
  have ascii : UInt8.ofNat character.toNat < 0x80 := by
    rw [UInt8.lt_iff_toNat_lt, value]
    show character.toNat < 0x80
    omega
  rw [decodeAscii, if_pos ascii, value, Char.ofNat_toNat]

theorem decode_ascii {characters : List Char}
    (small : ∀ character ∈ characters, character.toNat ≤ 0x7f) :
    ascii.decode (oneByte characters) = String.ofList characters := by
  rw [decode, oneByte, List.map_map]
  refine congrArg String.ofList ?_
  calc characters.map (decodeAscii ∘ fun character => UInt8.ofNat character.toNat)
      = characters.map id :=
        List.map_congr_left fun character member => decodeAscii_ofNat (small character member)
    _ = characters := List.map_id characters

/-- Only NUL has the byte zero. -/
theorem ofNat_eq_zero_iff {character : Char} (small : character.toNat ≤ 0x7f) :
    UInt8.ofNat character.toNat = 0 ↔ character = Char.ofNat 0 := by
  constructor
  · intro zero
    have number := congrArg UInt8.toNat zero
    rw [Utf8.toNat_byte (by omega)] at number
    rw [← Char.ofNat_toNat character, number]
    rfl
  · rintro rfl
    rfl

/-- The bytes before the first NUL are those of the characters before it. -/
theorem beforeNul_oneByte {characters : List Char}
    (small : ∀ character ∈ characters, character.toNat ≤ 0x7f) :
    beforeNul (oneByte characters) =
      oneByte (characters.takeWhile fun character => character ≠ Char.ofNat 0) := by
  induction characters with
  | nil => rfl
  | cons character rest ih =>
    obtain ⟨first, later⟩ := List.forall_mem_cons.mp small
    have same := ofNat_eq_zero_iff first
    rw [beforeNul, oneByte, List.map_cons, List.takeWhile_cons, List.takeWhile_cons]
    by_cases nul : character = Char.ofNat 0
    · simp [nul, oneByte]
    · have filled : UInt8.ofNat character.toNat ≠ 0 := fun zero => nul (same.mp zero)
      rw [if_pos (decide_eq_true filled), if_pos (decide_eq_true nul)]
      exact congrArg (UInt8.ofNat character.toNat :: ·) (ih later)

end Charset

/-- Padding with NUL does not lengthen what stands before the first. -/
theorem beforeNul_append_replicate (bytes : List UInt8) (count : Nat) :
    beforeNul (bytes ++ List.replicate count 0) = beforeNul bytes := by
  unfold beforeNul
  induction bytes with
  | nil =>
    cases count with
    | zero => rfl
    | succ count => rw [List.nil_append, List.replicate_succ]; rfl
  | cons byte rest ih =>
    rw [List.cons_append, List.takeWhile_cons, List.takeWhile_cons, ih]

/-! ### Texts of seven bits -/

/-- Every character of a text has seven bits. -/
def IsAscii (text : String) : Prop := ∀ character ∈ text.toList, character.toNat ≤ 0x7f

instance (text : String) : Decidable (IsAscii text) :=
  List.decidableBAll (fun character : Char => character.toNat ≤ 0x7f) text.toList

/-- The beginning of a text that a field of fixed length keeps, which ends before a NUL. -/
def shortened (length : Nat) (text : String) : String :=
  String.ofList ((text.toList.take length).takeWhile fun character => character ≠ Char.ofNat 0)

theorem shortened_eq_self {length : Nat} {text : String} (short : text.length ≤ length)
    (noNul : Char.ofNat 0 ∉ text.toList) : shortened length text = text := by
  have kept : text.toList.takeWhile (fun character => character ≠ Char.ofNat 0) = text.toList := by
    rw [List.takeWhile_eq_self_iff]
    intro character member
    exact decide_eq_true fun nul => noNul (nul ▸ member)
  rw [shortened, List.take_of_length_le short, kept, String.ofList_toList]

namespace Charset

variable {text : String}

theorem encode_ascii (small : IsAscii text) : ascii.encode text = .ok (oneByte text.toList) :=
  encodeUpTo_eq small

theorem length_oneByte (text : String) : (oneByte text.toList).length = text.length :=
  List.length_map _

theorem decode_oneByte (small : IsAscii text) : ascii.decode (oneByte text.toList) = text := by
  rw [decode_ascii small, String.ofList_toList]

theorem decode_beforeNul (small : IsAscii text) (length : Nat) :
    ascii.decode (beforeNul ((oneByte text.toList).take length)) = shortened length text := by
  have taken : ∀ character ∈ text.toList.take length, character.toNat ≤ 0x7f :=
    fun character member => small character (List.mem_of_mem_take member)
  rw [oneByte, ← List.map_take, ← oneByte, beforeNul_oneByte taken, decode_ascii, shortened]
  intro character member
  exact taken character (List.takeWhile_subset _ member)

end Charset

end Sbe.Text
