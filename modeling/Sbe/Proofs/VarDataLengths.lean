import Sbe.Codec.Error
import Sbe.Codec.Pattern
import Sbe.Proofs.Excerpts
import Sbe.Proofs.Purposes
import Sbe.Proofs.Wire

/-!
**Lengths of values of variable length.**

An encoder refuses values that are longer than a constant of the code, and writes the length of any
other in the type of its length field. A length comes back from the wire exactly when it is one of
the numbers of that type, and nothing but the schema keeps the constant among them.

* `Primitive.carries_iff`: the lengths that come back from the wire;
* `Source.lengthFunction_infix`: where the constant and the length stand among the lines of a field;
* `Source.maxLength_lt_patterns`: the constant of a length field whose declared bound is in its
  range;
* `Schema.generate_measures_lengths`: all fields of variable length of a run.
-/

namespace Sbe

open Sbe.Source
open Sbe.Layout

/-! ### Lengths on the wire -/

namespace Primitive

/-- A length that is written as a value of the primitive is read back. -/
def Carries (primitive : Primitive) (order : ByteOrder) (length : Nat) : Prop :=
  ∀ (buffer : Buffer) (index : Nat), index + primitive.size ≤ buffer.capacity →
    ∃ after : Buffer, buffer.putNumber primitive.size index (primitive.pattern length) order =
        (.ok after : Outcome CodecError Buffer) ∧
      after.getNumber primitive.size index order = (.ok length : Outcome CodecError Nat)

/-- What is written as a value of a primitive is read back, cut to the size of the primitive. -/
theorem getNumber_putNumber (primitive : Primitive) (order : ByteOrder) (length : Nat)
    {buffer : Buffer} {index : Nat} (room : index + primitive.size ≤ buffer.capacity) :
    ∃ after : Buffer, buffer.putNumber primitive.size index (primitive.pattern length) order =
        (.ok after : Outcome CodecError Buffer) ∧
      after.getNumber primitive.size index order =
        (.ok (length % primitive.patterns) : Outcome CodecError Nat) := by
  have pattern : primitive.pattern length = length % primitive.patterns := by
    rw [Primitive.pattern, ← Int.natCast_emod, Int.toNat_natCast]
  have size := order.bytes_length primitive.size (primitive.pattern length)
  have room : index + (order.bytes primitive.size (primitive.pattern length)).length ≤
      buffer.capacity := by
    rw [size]
    exact room
  refine ⟨buffer.overwrite index (order.bytes primitive.size (primitive.pattern length)), ?_, ?_⟩
  · rw [Buffer.putNumber, Buffer.putBytes, Buffer.holds, decide_eq_true room, if_pos rfl]
  · have found := (Buffer.holds_overwrite room).slice_eq (ε := CodecError)
    rw [size] at found
    rw [Buffer.getNumber, found, Except.map, order.number_bytes, pattern]
    exact congrArg Except.ok (Nat.mod_mod _ _)

/-- A primitive carries the lengths that are among its patterns. -/
theorem carries_iff {primitive : Primitive} {order : ByteOrder} {length : Nat} :
    primitive.Carries order length ↔ length < primitive.patterns := by
  have some : 0 < primitive.patterns := Nat.pow_pos (by decide)
  constructor
  · intro carries
    let buffer : Buffer := .ofList (List.replicate primitive.size 0)
    have room : 0 + primitive.size ≤ buffer.capacity := by
      rw [← Buffer.length_toList, Buffer.toList_ofList, List.length_replicate, Nat.zero_add]
    obtain ⟨after, written, read⟩ := carries buffer 0 room
    obtain ⟨_, again, cut⟩ := primitive.getNumber_putNumber order length room
    rw [written] at again
    cases again
    rw [read] at cut
    injection cut with same
    rw [same]
    exact Nat.mod_lt _ some
  · intro fits buffer index room
    have back := primitive.getNumber_putNumber order length room
    rwa [Nat.mod_eq_of_lt fits] at back

/-- A primitive carries all lengths up to a bound exactly when it carries the bound. -/
theorem carries_upTo_iff {primitive : Primitive} {order : ByteOrder} {greatest : Nat} :
    (∀ length ≤ greatest, primitive.Carries order length) ↔ greatest < primitive.patterns := by
  constructor
  · intro each
    exact carries_iff.mp (each greatest (Nat.le_refl greatest))
  · intro fits length within
    exact carries_iff.mpr (Nat.lt_of_le_of_lt within fits)

end Primitive

namespace Source

/-- The constant stays among the patterns of a length field that declares no bound, or one in its
range. -/
theorem maxLength_lt_patterns {length : Token} {primitive : Primitive}
    (typed : length.encoding.primitive = some primitive) (unsigned : primitive.isUnsigned = true)
    (inRange : ∀ bound whole, length.encoding.greatest = some bound → bound.toInt? = some whole →
      whole < primitive.patterns) : maxLength length < primitive.patterns := by
  have some : 0 < primitive.patterns := Nat.pow_pos (by decide)
  have bounded : ∀ whole : Int, whole < primitive.patterns →
      lowWord whole < primitive.patterns := by
    intro whole small
    have cut : lowWord whole ≤ whole.toNat := Nat.mod_le _ _
    omega
  rw [maxLength, Encoding.greatest?, typed]
  cases declared : length.encoding.greatest with
  | none =>
    apply bounded
    cases primitive with
    | uint8 | uint16 | uint32 | uint64 => decide
    | _ => cases unsigned
  | some bound =>
    cases value : bound.toInt? with
    | none => simpa [value, lowWord] using some
    | some whole => simpa [value] using bounded whole (inRange bound whole declared value)

/-! ### Lengths in the code -/

/-- The function through which a length passes: a decoder reads it, an encoder tests it and writes
it. -/
def lengthFunction (layout : VarDataLayout) (length : Primitive) (accessor upper : String) :
    Side → Code
  | .decoder =>
    Code.function (accessor ++ "_length(&self) -> usize")
      (guardIf (decide (0 < layout.varData.version)) layout.varData.version "0" ++
      ["let limit = self.cursor.limit();",
        readAt length "self.buffer" "limit" layout.length.encoding.byteOrder ++ " as usize"])
  | .encoder =>
    Code.function ("put_" ++ accessor ++ "(&mut self, src: &[u8]) -> Result<&mut Self, CodecError>")
      (Code.block ("if src.len() > " ++ ("Self::" ++ upper ++ "_MAX_LENGTH"))
        ["return Err(CodecError::LengthExceedsMaximum \x7b",
          "    field: " ++ Text.quote layout.varData.name ++ ",",
          "    length: src.len(),",
          "    max: " ++ ("Self::" ++ upper ++ "_MAX_LENGTH") ++ ",",
          "\x7d);"] ++
      ["let limit = self.cursor.limit();",
        "self.cursor.set_limit(limit + " ++ ("Self::" ++ upper ++ "_HEADER_LENGTH") ++
          " + src.len());",
        writeAt length "self.buffer" "limit" ("src.len() as " ++ length.sourceType)
          layout.length.encoding.byteOrder,
        "self.buffer.put_bytes(limit + " ++ ("Self::" ++ upper ++ "_HEADER_LENGTH") ++ ", src);",
        "Ok(self)"])

/-- The greatest length of a value, as a line of the code. -/
def maxLengthLine (layout : VarDataLayout) : String :=
  Code.constant (Name.upperSnakeCase layout.varData.name ++ "_MAX_LENGTH") "usize"
    (toString (maxLength layout.length))

theorem lengthFunction_infix_varDataReads (layout : VarDataLayout) (length : Primitive)
    (accessor upper : String) (isText : Bool) :
    lengthFunction layout length accessor upper .decoder <:+:
      varDataReads layout length accessor upper isText := by
  simp only [varDataReads, List.append_assoc]
  exact (List.prefix_append _ _).isInfix

theorem lengthFunction_infix_varDataWrites (layout : VarDataLayout) (length : Primitive)
    (accessor upper : String) (isText : Bool) :
    lengthFunction layout length accessor upper .encoder <:+:
      varDataWrites layout length accessor upper isText :=
  (List.prefix_append _ _).isInfix

/-- The constant and the function of a length stand among the lines of its field. -/
theorem lengthFunction_infix {settings : Settings} {side : Side} {layout : VarDataLayout}
    {code : Code} (made : varDataAccessors settings side layout = .ok code) :
    ∃ length accessor, layout.length.encoding.primitive = some length ∧
      settings.propertyName layout.varData.name = .ok accessor ∧ [maxLengthLine layout] <:+: code ∧
      lengthFunction layout length accessor (Name.upperSnakeCase layout.varData.name) side <:+:
        code := by
  unfold varDataAccessors at made
  dsimp only at made
  obtain ⟨accessor, spelled, made⟩ := Outcome.bind_eq_ok_iff.mp made
  obtain ⟨length, typed, made⟩ := Outcome.bind_eq_ok_iff.mp made
  rw [Outcome.refuse_bind, Outcome.ite_refuse_eq_ok_iff] at made
  obtain ⟨_, made⟩ := made
  have primitive := Token.primitive_eq_ok_iff.mp typed
  have shape : ∃ (before after members functions : Code),
      code = Code.spaced (before ++ [maxLengthLine layout] ++ after) ++ members ++ functions ∧
        lengthFunction layout length accessor (Name.upperSnakeCase layout.varData.name) side <:+:
          functions := by
    have reads := lengthFunction_infix_varDataReads layout length accessor
      (Name.upperSnakeCase layout.varData.name)
    have writes := lengthFunction_infix_varDataWrites layout length accessor
      (Name.upperSnakeCase layout.varData.name)
    cases charset : layout.data.encoding.charset with
    | some name =>
      rw [charset] at made
      obtain ⟨set, _, made⟩ := Outcome.bind_eq_ok_iff.mp made
      cases side with
      | decoder => exact ⟨[_, _, _], _, _, _, (Except.ok.inj made).symm, reads set.isSome⟩
      | encoder => exact ⟨[_, _, _], _, _, _, (Except.ok.inj made).symm, writes set.isSome⟩
    | none =>
      rw [charset] at made
      cases side with
      | decoder => exact ⟨[_, _, _], _, _, _, (Except.ok.inj made).symm, reads false⟩
      | encoder => exact ⟨[_, _, _], _, _, _, (Except.ok.inj made).symm, writes false⟩
  obtain ⟨before, after, members, functions, rfl, function⟩ := shape
  have constant : [maxLengthLine layout] <:+:
      Code.spaced (before ++ [maxLengthLine layout] ++ after) :=
    (List.infix_append before _ after).trans (Code.infix_spaced _)
  have inside := constant.trans (List.prefix_append _ members).isInfix
  exact ⟨length, accessor, primitive, spelled, inside.trans (List.prefix_append _ _).isInfix,
    function.trans (List.suffix_append _ _).isInfix⟩

end Source

/-! ### Units of messages -/

/-- The bodies inside an accepted body are accepted. -/
theorem Body.Contains.accepted {body inner : Body} (contains : body.Contains inner)
    (accepted : body.Accepted) : inner.Accepted := by
  induction contains with
  | self => exact accepted
  | group found member _ ih =>
    cases accepted with
    | intro _ _ groupsFound _ inside =>
      rw [found] at groupsFound
      cases groupsFound
      exact ih (inside _ member)

namespace Schema

open Plan

/-- A run that comes to its end has written the units of both sides of every message. -/
theorem exists_unit_of_generate {schema : Schema} (accepted : schema.Accepted) {settings : Settings}
    (ended : (schema.generate settings).ending = none) {tokens : List Token}
    (member : tokens ∈ schema.messages) (side : Side) :
    ∃ unit ∈ (schema.generate settings).units, ∃ header first code, tokens.head? = some first ∧
      unit.name = unitName first.name side ∧
      messageUnit settings schema header first tokens side = .ok code ∧ unit.code = code.text := by
  obtain ⟨headerFirst, headerRest, header, _⟩ := accepted.header.opening
  obtain ⟨first, rest, rfl, _⟩ := (accepted.messages tokens member).1.opening
  have planned := message_mem_purposes header member side
  rw [generate, ofSchema_eq] at ended ⊢
  obtain ⟨unit, written, name, code, made, text⟩ := exists_of_forall₂ (forall₂_run ended) planned
  exact ⟨unit, written, _, first, code, rfl, name, made, text⟩

/-- What a run says about the length of a field of variable length in a message. The unit of each
side holds the greatest length as a constant, and the function that reads the length or tests and
writes it. All lengths that pass the test come back from the wire exactly when the constant is among
the patterns of the length field, as it is unless a bound outside the range of the length field is
declared. -/
structure Measures (schema : Schema) (settings : Settings) (tokens : List Token)
    (layout : VarDataLayout) (primitive : Primitive) : Prop where
  typed : layout.length.encoding.primitive = some primitive
  unsigned : primitive.isUnsigned = true
  units : ∀ side, ∃ unit ∈ (schema.generate settings).units, ∃ first accessor code,
    tokens.head? = some first ∧ unit.name = unitName first.name side ∧
    settings.propertyName layout.varData.name = .ok accessor ∧ unit.code = Code.text code ∧
    Code.indent [maxLengthLine layout] <:+: code ∧
    Code.indent (lengthFunction layout primitive accessor
      (Name.upperSnakeCase layout.varData.name) side) <:+: code
  carried : (∀ length ≤ maxLength layout.length,
      primitive.Carries layout.length.encoding.byteOrder length) ↔
    maxLength layout.length < primitive.patterns
  inRange : (∀ bound whole, layout.length.encoding.greatest = some bound →
      bound.toInt? = some whole → whole < primitive.patterns) →
    maxLength layout.length < primitive.patterns

/-- **Lengths of a run.** In a run for a verified schema that comes to its end, every field of
variable length at every depth of groups is measured in an unsigned type, and keeps its lengths
exactly when the constant in the code is one of the numbers of that type. -/
theorem generate_measures_lengths {schema : Schema} (verified : schema.verify = .ok ())
    {settings : Settings} (ended : (schema.generate settings).ending = none) {tokens : List Token}
    (member : tokens ∈ schema.messages) :
    ∃ body, decomposeMessage tokens = .ok body ∧ ∀ inner, body.Contains inner →
      ∃ layouts, splitVarData 0 inner.varData = .ok layouts ∧
        ∀ layout ∈ layouts, ∃ primitive, Measures schema settings tokens layout primitive := by
  have accepted := verify_eq_ok_iff.mp verified
  obtain ⟨_, body, found, bodyAccepted⟩ := accepted.messages tokens member
  refine ⟨body, found, fun inner contains => ?_⟩
  obtain @⟨_, _, _, layouts, _, _, _, _, _, layoutsFound, lengths⟩ := contains.accepted bodyAccepted
  refine ⟨layouts, layoutsFound, fun layout inside => ?_⟩
  obtain ⟨primitive, typed, unsigned⟩ := lengths layout inside
  refine ⟨primitive, typed, unsigned, fun side => ?_, Primitive.carries_upTo_iff,
    maxLength_lt_patterns typed unsigned⟩
  obtain ⟨unit, written, _, first, code, start, name, made, text⟩ :=
    exists_unit_of_generate accepted ended member side
  obtain ⟨path, members, membersMade, inUnit⟩ := members_infix_messageUnit made found contains
  obtain ⟨accessors, accessorsMade, inMembers⟩ :=
    varDataAccessors_infix membersMade layoutsFound inside
  obtain ⟨length, accessor, sameType, spelled, constant, function⟩ :=
    lengthFunction_infix accessorsMade
  rw [typed] at sameType
  cases sameType
  exact ⟨unit, written, first, accessor, code, start, name, spelled, text,
    List.IsInfix.trans ((constant.trans inMembers).map _) inUnit,
    List.IsInfix.trans ((function.trans inMembers).map _) inUnit⟩

/-- A message with a text in each repetition of a group, and one with a length of a single byte. -/
def letters : Schema where
  packageName := "letters"
  id := 3
  header := Build.messageHeader
  messages := [Build.message "Letter" 1 0
    [Build.group "pages" 1 0 0 Build.groupSize
        [Build.varData "words" 2 0 (Build.varDataEncoding (some "UTF-8"))],
      Build.varData "seal" 3 0 (Build.composite "sealEncoding" 0 1
        [[Build.value "length" 0 { Encoding.of .uint8 with greatest := some (.uint 255) }],
          [Build.value "varData" 1 (.of .uint8)]])]]

theorem letters_generate_measures_lengths :
    letters.verify = .ok () ∧ (letters.generate {}).ending = none ∧
      ∃ tokens ∈ letters.messages, ∃ body, decomposeMessage tokens = .ok body ∧
        ∀ inner, body.Contains inner → ∃ layouts, splitVarData 0 inner.varData = .ok layouts ∧
          ∀ layout ∈ layouts, ∃ primitive, Measures letters {} tokens layout primitive := by
  have verified : letters.verify = .ok () := Outcome.eq_ok_of_isOk (by decide +kernel)
  have ended : (letters.generate {}).ending = none := by decide +kernel
  have member : letters.messages[0] ∈ letters.messages := List.getElem_mem _
  exact ⟨verified, ended, _, member, generate_measures_lengths verified ended member⟩

/-- The tokens of a message with a note whose length has one byte and a bound of a thousand. -/
def memoTokens : List Token :=
  Build.message "Memo" 1 0 [Build.varData "note" 2 0 (Build.composite "varDataEncoding" 0 1
    [[Build.value "length" 0 { Encoding.of .uint8 with greatest := some (.int 1000) }],
      [Build.value "varData" 1 (.of .uint8)]])]

/-- A schema of that message alone. -/
def memo : Schema :=
  { packageName := "memo", id := 1, header := Build.messageHeader, messages := [memoTokens] }

/-- A run can come to its end although a length that passes the test of the encoder is cut on the
wire. -/
theorem memo_length_cut : memo.verify = .ok () ∧ (memo.generate {}).ending = none ∧
    (∃ first code, memoTokens.head? = some first ∧
      messageUnit {} memo "messageHeader" first memoTokens .encoder = .ok code ∧
      "    pub const NOTE_MAX_LENGTH: usize = 1000;" ∈ code ∧
      "        if src.len() > Self::NOTE_MAX_LENGTH \x7b" ∈ code ∧
      "        self.buffer.put_u8(limit, src.len() as u8);" ∈ code) ∧
    ∀ order, ¬ Primitive.uint8.Carries order 1000 := by
  refine ⟨Outcome.eq_ok_of_isOk (by decide +kernel), by decide +kernel, ?_, fun order carries => ?_⟩
  · have shown : ∃ first ∈ memoTokens.head?,
        ∃ code ∈ (messageUnit {} memo "messageHeader" first memoTokens .encoder).toOption,
          "    pub const NOTE_MAX_LENGTH: usize = 1000;" ∈ code ∧
          "        if src.len() > Self::NOTE_MAX_LENGTH \x7b" ∈ code ∧
          "        self.buffer.put_u8(limit, src.len() as u8);" ∈ code := by
      decide +kernel
    obtain ⟨first, start, code, found, lines⟩ := shown
    exact ⟨first, code, start, Outcome.eq_ok_of_mem_toOption found, lines⟩
  · exact absurd (Primitive.carries_iff.mp carries) (by decide)

end Schema

end Sbe
