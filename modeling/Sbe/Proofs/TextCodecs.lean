import Sbe.Codec.Wire
import Sbe.Proofs.Utf8Sequences

/-!
**Texts and bytes in each character set.**

A text has bytes in a set exactly when the set holds all of its characters, and it is read back from
them. Bytes are written back as they were exactly when they are the form of a text, as all bytes are
in Latin-1.

* `encodeUpTo_cases`: the sets of one byte find the first character that they do not hold;
* `encode_decode_iff`: the bytes that are written back;
* `Charset.codec_round_trips`: the three sets.
-/

namespace Sbe.Text.Charset

/-! ### What a set holds -/

/-- Whether a set holds a character. -/
def Holds : Charset → Char → Prop
  | ascii, character => character.toNat ≤ 0x7f
  | latin1, character => character.toNat ≤ 0xff
  | utf8, _ => True

/-- Bytes that are the form of a text in a set. -/
def WellFormed : Charset → List UInt8 → Prop
  | ascii, bytes => ∀ byte ∈ bytes, byte < 0x80
  | latin1, _ => True
  | utf8, bytes => Utf8.WellFormed bytes

/-- Either all characters are within the limit, or the first one past it is told. -/
theorem encodeUpTo_cases (limit : Nat) (characters : List Char) :
    (∀ character ∈ characters, character.toNat ≤ limit) ∨
      ∃ front character back, characters = front ++ character :: back ∧
        (∀ early ∈ front, early.toNat ≤ limit) ∧ ¬ character.toNat ≤ limit ∧
        encodeUpTo limit characters = .error character := by
  induction characters with
  | nil => exact .inl (List.forall_mem_nil _)
  | cons first rest ih =>
    by_cases small : first.toNat ≤ limit
    · rcases ih with all | ⟨front, character, back, rfl, early, large, told⟩
      · exact .inl (List.forall_mem_cons.mpr ⟨small, all⟩)
      · refine .inr
          ⟨first :: front, character, back, rfl, List.forall_mem_cons.mpr ⟨small, early⟩, large, ?_⟩
        rw [encodeUpTo, if_pos small, told]
        rfl
    · refine .inr ⟨[], first, rest, rfl, List.forall_mem_nil _, small, ?_⟩
      rw [encodeUpTo, if_neg small]

variable {charset : Charset} {text : String} {bytes : List UInt8}

/-- A text whose characters a set holds has bytes in it. -/
theorem exists_encode (holds : ∀ character ∈ text.toList, charset.Holds character) :
    ∃ bytes, charset.encode text = .ok bytes := by
  cases charset with
  | utf8 => exact ⟨_, rfl⟩
  | ascii => exact ⟨_, encodeUpTo_eq holds⟩
  | latin1 => exact ⟨_, encodeUpTo_eq holds⟩

/-- Another text is refused for the first character that the set does not hold. -/
theorem encode_eq_error (outside : ¬ ∀ character ∈ text.toList, charset.Holds character) :
    ∃ front character back, text.toList = front ++ character :: back ∧
      (∀ early ∈ front, charset.Holds early) ∧ ¬ charset.Holds character ∧
      charset.encode text = .error character := by
  cases charset with
  | utf8 => exact absurd (fun _ _ => trivial) outside
  | ascii => exact (encodeUpTo_cases 0x7f text.toList).resolve_left outside
  | latin1 => exact (encodeUpTo_cases 0xff text.toList).resolve_left outside

theorem holds_of_encode (encoded : charset.encode text = .ok bytes) :
    ∀ character ∈ text.toList, charset.Holds character := by
  by_contra outside
  obtain ⟨_, character, _, _, _, _, refused⟩ := encode_eq_error outside
  rw [encoded] at refused
  cases refused

/-! ### Texts are read back -/

theorem toNat_ofNat_byte (byte : UInt8) : (Char.ofNat byte.toNat).toNat = byte.toNat := by
  have small := byte.toNat_lt
  have valid : byte.toNat.isValidChar := .inl (by omega)
  rw [Char.ofNat, dif_pos valid]
  rfl

theorem decode_latin1 {characters : List Char}
    (small : ∀ character ∈ characters, character.toNat ≤ 0xff) :
    latin1.decode (oneByte characters) = String.ofList characters := by
  rw [decode, oneByte, List.map_map]
  refine congrArg String.ofList ?_
  calc characters.map
        ((fun byte => Char.ofNat byte.toNat) ∘ fun character => UInt8.ofNat character.toNat) =
      characters.map id := by
        refine List.map_congr_left fun character member => ?_
        have fits := small character member
        show Char.ofNat (UInt8.ofNat character.toNat).toNat = character
        rw [Utf8.toNat_byte (by omega), Char.ofNat_toNat]
    _ = characters := List.map_id characters

/-- A text is read back from its bytes. -/
theorem decode_of_encode (encoded : charset.encode text = .ok bytes) :
    charset.decode bytes = text := by
  have holds := holds_of_encode encoded
  cases charset with
  | utf8 =>
    cases encoded
    rw [decode, Utf8.decode_encode, String.ofList_toList]
  | ascii =>
    rw [encode, encodeUpTo_eq holds] at encoded
    cases encoded
    rw [decode_ascii holds, String.ofList_toList]
  | latin1 =>
    rw [encode, encodeUpTo_eq holds] at encoded
    cases encoded
    rw [decode_latin1 holds, String.ofList_toList]

/-! ### Bytes are written back -/

/-- Bytes are those of the characters that stand for them, where none is replaced. -/
theorem oneByte_map {character : UInt8 → Char}
    (same : ∀ byte ∈ bytes, (character byte).toNat = byte.toNat) :
    oneByte (bytes.map character) = bytes := by
  rw [oneByte, List.map_map]
  calc bytes.map ((fun character => UInt8.ofNat character.toNat) ∘ character)
      = bytes.map id := by
        refine List.map_congr_left fun byte member => ?_
        show UInt8.ofNat (character byte).toNat = byte
        rw [same byte member, UInt8.ofNat_toNat]
    _ = bytes := List.map_id bytes

theorem encode_decode_latin1 (bytes : List UInt8) :
    latin1.encode (latin1.decode bytes) = .ok bytes := by
  have small : ∀ character ∈ bytes.map fun byte => Char.ofNat byte.toNat, character.toNat ≤
      0xff := by
    rw [List.forall_mem_map]
    intro byte _
    have bound := byte.toNat_lt
    rw [toNat_ofNat_byte]
    omega
  rw [encode, decode, String.toList_ofList, encodeUpTo_eq small,
    oneByte_map fun byte _ => toNat_ofNat_byte byte]

/-- A byte past the set becomes a replacement character, which the set does not hold. -/
theorem toNat_decodeAscii_le_iff (byte : UInt8) :
    (decodeAscii byte).toNat ≤ 0x7f ↔ byte < 0x80 := by
  unfold decodeAscii
  split
  · next small =>
    rw [toNat_ofNat_byte]
    refine iff_of_true ?_ small
    have below : byte.toNat < 0x80 := UInt8.lt_iff_toNat_lt.mp small
    omega
  · next large => exact iff_of_false (by decide) large

theorem encode_decode_ascii_iff :
    ascii.encode (ascii.decode bytes) = .ok bytes ↔ ∀ byte ∈ bytes, byte < 0x80 := by
  have plain : (∀ character ∈ bytes.map decodeAscii, character.toNat ≤ 0x7f) ↔
      ∀ byte ∈ bytes, byte < 0x80 := by
    rw [List.forall_mem_map]
    exact forall₂_congr fun byte _ => toNat_decodeAscii_le_iff byte
  constructor
  · intro encoded
    have holds := holds_of_encode encoded
    rw [decode, String.toList_ofList] at holds
    exact plain.mp holds
  · intro small
    have same (byte : UInt8) (member : byte ∈ bytes) : (decodeAscii byte).toNat = byte.toNat := by
      rw [decodeAscii, if_pos (small byte member), toNat_ofNat_byte]
    rw [encode, decode, String.toList_ofList, encodeUpTo_eq (plain.mpr small), oneByte_map same]

theorem encode_decode_utf8_iff :
    utf8.encode (utf8.decode bytes) = .ok bytes ↔ Utf8.WellFormed bytes := by
  rw [encode, decode, String.toList_ofList, Except.ok.injEq, Utf8.encode_decode_eq_iff]

theorem encode_decode_iff (charset : Charset) (bytes : List UInt8) :
    charset.encode (charset.decode bytes) = .ok bytes ↔ charset.WellFormed bytes := by
  cases charset with
  | utf8 => exact encode_decode_utf8_iff
  | ascii => exact encode_decode_ascii_iff
  | latin1 => exact iff_of_true (encode_decode_latin1 bytes) trivial

/-! ### The three sets -/

/-- A character of seven bits has the same byte in ASCII and in UTF-8. -/
theorem utf8Encode_eq_oneByte {characters : List Char}
    (small : ∀ character ∈ characters, character.toNat ≤ 0x7f) :
    Utf8.encode characters = oneByte characters := by
  induction characters with
  | nil => rfl
  | cons character rest ih =>
    obtain ⟨first, later⟩ := List.forall_mem_cons.mp small
    have one : String.utf8EncodeChar character = [UInt8.ofNat character.toNat] := if_pos first
    rw [Utf8.encode, List.flatMap_cons, one]
    exact congrArg (UInt8.ofNat character.toNat :: ·) (ih later)

/-- What a set does with texts and with bytes: it takes exactly the texts whose characters it holds
and tells the first character of any other, reads back what it took, and writes back exactly the
bytes that are the form of a text. -/
structure RoundTrips (charset : Charset) : Prop where
  takes : ∀ text : String, (∃ bytes, charset.encode text = .ok bytes) ↔
    ∀ character ∈ text.toList, charset.Holds character
  refuses : ∀ text : String, (¬ ∀ character ∈ text.toList, charset.Holds character) →
    ∃ front character back, text.toList = front ++ character :: back ∧
      (∀ early ∈ front, charset.Holds early) ∧ ¬ charset.Holds character ∧
      ∀ wire, (Codec.encodeText charset text).run wire =
        (.error (.refused (.unrepresentable charset.name character)), wire)
  readsBack : ∀ text bytes, charset.encode text = .ok bytes → charset.decode bytes = text
  writesBack : ∀ bytes, charset.encode (charset.decode bytes) = .ok bytes ↔ charset.WellFormed bytes

/-- **Texts and bytes in ASCII, Latin-1 and UTF-8.** Each set takes the texts whose characters it
holds, refuses another text for its first character that it does not hold, and gives texts and
well-formed bytes back. In ASCII a text has the bytes that it has in UTF-8. Reading UTF-8 replaces
malformed bytes, each longest beginning of a sequence by one character. -/
theorem codec_round_trips :
    (∀ charset : Charset, charset.RoundTrips) ∧
    (∀ text bytes, ascii.encode text = .ok bytes → utf8.encode text = .ok bytes) ∧
    ∀ bytes text, utf8.decode bytes = text ↔ Utf8.Deciphers bytes text.toList := by
  refine ⟨fun charset => ?_, fun text bytes encoded => ?_, fun bytes text => ?_⟩
  · refine ⟨fun text => ⟨fun ⟨_, encoded⟩ => holds_of_encode encoded, exists_encode⟩,
      fun text outside => ?_, fun _ _ => decode_of_encode, charset.encode_decode_iff⟩
    obtain ⟨front, character, back, whole, early, unheld, refused⟩ := encode_eq_error outside
    refine ⟨front, character, back, whole, early, unheld, fun wire => ?_⟩
    rw [Codec.encodeText, refused]
    rfl
  · have holds := holds_of_encode encoded
    rw [encode, encodeUpTo_eq holds] at encoded
    rw [encode, utf8Encode_eq_oneByte holds]
    exact encoded
  · rw [← Utf8.decode_eq_iff_deciphers, decode]
    constructor
    · rintro rfl
      rw [String.toList_ofList]
    · intro read
      rw [read, String.ofList_toList]

-- The beginning of a sequence of three bytes is replaced once, and a byte of no sequence on its
-- own.
example : utf8.decode [0x61, 0xe2, 0x82, 0x62, 0xff] = "a\ufffdb\ufffd" := by cbv

end Sbe.Text.Charset
