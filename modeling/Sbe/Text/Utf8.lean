/-!
**UTF-8.**

Encoding writes each character in its shortest form. Decoding never fails: a sequence that stops
being well formed is replaced by one replacement character, and reading goes on at the first byte
that did not fit. A lead byte says which range each of the following bytes must lie in.
-/

namespace Sbe.Text.Utf8

/-- The bytes of a text. -/
def encode (text : List Char) : List UInt8 := text.flatMap String.utf8EncodeChar

/-- The character that stands for a malformed sequence. -/
def replacement : Char := '�'

/-- The payload of a lead byte and the ranges of the bytes that must follow it. -/
def lead? (byte : UInt8) : Option (Nat × List (UInt8 × UInt8)) :=
  if byte < 0x80 then some (byte.toNat, [])
  else if byte < 0xc2 then none
  else if byte < 0xe0 then some (byte.toNat % 32, [(0x80, 0xbf)])
  else if byte < 0xf0 then
    let low : UInt8 := if byte = 0xe0 then 0xa0 else 0x80
    let high : UInt8 := if byte = 0xed then 0x9f else 0xbf
    some (byte.toNat % 16, [(low, high), (0x80, 0xbf)])
  else if byte < 0xf5 then
    let low : UInt8 := if byte = 0xf0 then 0x90 else 0x80
    let high : UInt8 := if byte = 0xf4 then 0x8f else 0xbf
    some (byte.toNat % 8, [(low, high), (0x80, 0xbf), (0x80, 0xbf)])
  else none

/-- Reads the bytes that must follow a lead byte: the completed code point, or nothing when a byte
is missing or out of range, and the bytes not read. -/
def follow : List (UInt8 × UInt8) → Nat → List UInt8 → Option Nat × List UInt8
  | [], code, bytes => (some code, bytes)
  | _ :: _, _, [] => (none, [])
  | (low, high) :: ranges, code, byte :: bytes =>
    if low ≤ byte ∧ byte ≤ high then follow ranges (code * 64 + byte.toNat % 64) bytes
    else (none, byte :: bytes)

theorem length_follow_le (ranges : List (UInt8 × UInt8)) (code : Nat) (bytes : List UInt8) :
    (follow ranges code bytes).2.length ≤ bytes.length := by
  fun_induction follow ranges code bytes with
  | case1 => exact Nat.le_refl _
  | case2 => exact Nat.le_refl _
  | case3 code low high ranges byte bytes _ ih => exact Nat.le_succ_of_le ih
  | case4 => exact Nat.le_refl _

/-- The first character of a nonempty sequence of bytes and the bytes after it. -/
def next (byte : UInt8) (bytes : List UInt8) : Char × List UInt8 :=
  match lead? byte with
  | none => (replacement, bytes)
  | some (code, ranges) =>
    match follow ranges code bytes with
    | (some code, rest) => (Char.ofNat code, rest)
    | (none, rest) => (replacement, rest)

theorem length_next_le (byte : UInt8) (bytes : List UInt8) :
    (next byte bytes).2.length ≤ bytes.length := by
  unfold next
  split
  · exact Nat.le_refl _
  · next code ranges _ =>
    have bound := length_follow_le ranges code bytes
    split
    · next done => rw [done] at bound; exact bound
    · next done => rw [done] at bound; exact bound

/-- The text of a sequence of bytes, one replacement character for each malformed sequence. -/
def decode : List UInt8 → List Char
  | [] => []
  | byte :: bytes =>
    have := length_next_le byte bytes
    (next byte bytes).1 :: decode (next byte bytes).2
termination_by bytes => bytes.length
decreasing_by simp only [List.length_cons]; omega

end Sbe.Text.Utf8
