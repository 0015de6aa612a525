import Sbe.Proofs.JsonNumber
import Sbe.Proofs.Outcome
import Sbe.Schema.Verify

/-!
**The JSON form of schemas.**

A schema is read back from its compact text in a normal form: an unsigned scalar that also fits the
signed kind becomes signed, and a scalar that is no finite number is left out. Everything else is
kept.

* `present`, `fields?_present`: records some of whose members are left out;
* `Schema.normalize`: the normal form;
* `Schema.parse_toJson`: what is read back;
* `Schema.normalize_of_parse`: what was read is in normal form.

Doubles are read in two roundings, so not every finite double survives its text.
`Schema.FloatsSurvive` asks for it of the doubles in one schema.
-/

namespace Sbe

open Sbe.Json (Value intNumeral)
open Sbe.Number

/-! ### Records some of whose members are left out -/

/-- The members that are there. -/
def present (entries : List (String × Option Value)) : List (String × Value) :=
  entries.filterMap fun entry => entry.2.map fun value => (entry.1, value)

theorem present_cons_some (key : String) (value : Value) (rest : List (String × Option Value)) :
    present ((key, some value) :: rest) = (key, value) :: present rest := rfl

theorem present_cons_map {α : Type} (key : String) (write : α → Value) (value : Option α)
    (rest : List (String × Option Value)) :
    present ((key, value.map write) :: rest) = optionalMember key write value ++ present rest := by
  cases value with
  | none => rfl
  | some value => rfl

/-- The keys of the members that are there stand in the order of all keys. -/
theorem present_sublist (entries : List (String × Option Value)) :
    ((present entries).map Prod.fst).Sublist (entries.map Prod.fst) := by
  induction entries with
  | nil => exact .slnil
  | cons entry rest ih =>
    obtain ⟨key, value⟩ := entry
    cases value with
    | none => exact ih.cons key
    | some value => exact ih.cons_cons key

theorem lookup_record (members : List (String × Value)) (key : String) :
    (members.map fun member => (some member.1, member.2)).lookup (some key) =
      members.lookup key := by
  induction members with
  | nil => rfl
  | cons member rest ih =>
    simp only [List.map_cons, List.lookup_cons, ih]
    rfl

theorem lookup_present {entries : List (String × Option Value)}
    (distinct : (entries.map Prod.fst).Nodup) (key : String) :
    (present entries).lookup key = (entries.lookup key).join := by
  induction entries with
  | nil => rfl
  | cons entry rest ih =>
    obtain ⟨name, value⟩ := entry
    obtain ⟨new, others⟩ := List.nodup_cons.mp distinct
    have later := ih others
    by_cases same : key = name
    · subst same
      cases value with
      | some value => simp [present_cons_some]
      | none =>
        -- No later member has this key.
        show (present rest).lookup key = _
        have absent : (present rest).lookup key = none := by
          rw [List.lookup_eq_none_iff]
          rintro ⟨other, value⟩ member
          rw [bne_iff_ne]
          rintro rfl
          exact new ((present_sublist rest).subset (List.mem_map_of_mem member))
        simp [absent]
    · have test : (key == name) = false := beq_eq_false_iff_ne.mpr same
      cases value with
      | some value => simp only [present_cons_some, List.lookup_cons, test, later]
      | none =>
        show (present rest).lookup key = _
        simp only [List.lookup_cons, test, later]

theorem length_filter_le_one {members : List (String × Value)}
    (distinct : (members.map Prod.fst).Nodup) (key : String) :
    ((members.map fun member => (some member.1, member.2)).filter
        fun member => member.1 == some key).length ≤ 1 := by
  rw [List.filter_map, List.length_map, ← List.countP_eq_length_filter]
  calc members.countP _ = (members.map Prod.fst).count key := by
        rw [List.count, List.countP_map]
        rfl
    _ ≤ 1 := List.nodup_iff_count.mp distinct key

/-- A record with distinct keys is read field by field. -/
theorem fields?_present {entries : List (String × Option Value)}
    (distinct : (entries.map Prod.fst).Nodup) (keys : List String) :
    fields? keys (.record (present entries)) = some fun key => (entries.lookup key).join := by
  have once := length_filter_le_one ((present_sublist entries).nodup distinct)
  unfold fields? Value.record
  simp only
  rw [if_pos]
  · congr 1
    funext key
    rw [lookup_record, lookup_present distinct]
  · simp only [Bool.and_eq_true, List.all_eq_true, decide_eq_true_eq]
    refine ⟨?_, fun key _ => once key⟩
    intro member inside
    obtain ⟨pair, _, rfl⟩ := List.mem_map.mp inside
    rfl

theorem wellFormed_present {entries : List (String × Option Value)}
    (each : ∀ entry ∈ entries, ∀ value, entry.2 = some value → value.WellFormed) :
    (Value.record (present entries)).WellFormed := by
  refine .record fun member inside => ?_
  obtain ⟨entry, known, made⟩ := List.mem_filterMap.mp inside
  obtain ⟨value, found, rfl⟩ := Option.map_eq_some_iff.mp made
  exact each entry known value found

theorem wellFormed_of_map {α : Type} {write : α → Value}
    (each : ∀ content, (write content).WellFormed) (content : Option α) :
    ∀ value, content.map write = some value → value.WellFormed := by
  intro value made
  obtain ⟨content, _, rfl⟩ := Option.map_eq_some_iff.mp made
  exact each content

theorem wellFormed_of_some {value : Value} (wellFormed : value.WellFormed) :
    ∀ other, some value = some other → other.WellFormed := by
  rintro _ ⟨⟩
  exact wellFormed

theorem wellFormed_array_map {α : Type} {write : α → Value} (each : ∀ item, (write item).WellFormed)
    (items : List α) : (Value.array (items.map write)).WellFormed := by
  refine .array fun value member => ?_
  obtain ⟨item, _, rfl⟩ := List.mem_map.mp member
  exact each item

/-! ### Fields -/

section Fields

variable {α β : Type} {fields : Fields} {key : String} {read : Value → Option β} {write : α → Value}

/-- A value where null stands for nothing. -/
def readNullable (read : Value → Option β) : Value → Option (Option β)
  | .null => some none
  | value => (read value).map some

theorem readNullable_of_some {value : Value} {content : β} (null : read .null = none)
    (back : read value = some content) : readNullable read value = some (some content) := by
  cases value with
  | null =>
    rw [null] at back
    cases back
  | _ => simp [readNullable, back]

theorem optional_of_map {value : Option α} {kept : α → Option β}
    (found : fields key = value.map write)
    (back : ∀ content, value = some content → readNullable read (write
      content) = some (kept content)) : fields.optional key read = some (value.bind kept) := by
  unfold Fields.optional
  rw [found]
  cases value with
  | none => rfl
  | some content =>
    have read := back content rfl
    cases shape : write content <;> simp_all [readNullable]

theorem optional_of_exact {value : Option β} {write : β → Value}
    (found : fields key = value.map write) (null : read .null = none)
    (back : ∀ content, read (write content) = some content) :
    fields.optional key read = some value := by
  rw [optional_of_map found fun content _ => readNullable_of_some null (back content)]
  simp

theorem required_of_some {value : Value} {content : β} (found : fields key = some value)
    (back : read value = some content) : fields.required key read = some content := by
  simp [Fields.required, found, back]

/-- Reading goes on with what was found. -/
theorem bind_of_some {first : Option α} {next : α → Option β} {value : α} {result : β}
    (found : first = some value) (later : next value = some result) :
    (first >>= next) = some result :=
  Option.bind_eq_some_iff.mpr ⟨value, found, later⟩

theorem withDefault_of_some {value : Value} {content : β} (default : β)
    (found : fields key = some value) (back : read value = some content) :
    fields.withDefault key default read = some content := by
  simp [Fields.withDefault, found, back]

end Fields

/-! ### Words and numbers -/

theorem readText_text (text : String) : readText (.text text) = some text := rfl

theorem optional_text {fields : Fields} {key : String} {value : Option String}
    (found : fields key = value.map .text) : fields.optional key readText = some value :=
  optional_of_exact found rfl readText_text

theorem readName_signal (signal : Signal) :
    readName Signal.ofName? (.text signal.name) = some signal := by
  cases signal <;> decide

theorem readName_primitive (primitive : Primitive) :
    readName Primitive.ofName? (.text primitive.name) = some primitive := by
  cases primitive <;> decide

theorem readName_byteOrder (order : ByteOrder) :
    readName ByteOrder.ofName? (.text order.name) = some order := by
  cases order <;> rfl

theorem readName_presence (presence : Presence) :
    readName Presence.ofName? (.text presence.name) = some presence := by
  cases presence <;> rfl

theorem readInteger_int {least greatest value : Int} (atLeast : least ≤ value)
    (atMost : value ≤ greatest) (word : -2 ^ 63 ≤ value) (bound : value < 2 ^ 64) :
    readInteger least greatest (.int value) = some value := by
  rw [Json.int_eq, readInteger, Json.int?_int word bound]
  simp [Option.filter, atLeast, atMost]

theorem readInt32_int (value : Int32) : readInt32 (.int value.toInt) = some value := by
  have least := value.le_toInt
  have greatest := value.toInt_lt
  rw [readInt32, readInteger_int (by omega) (by omega) (by omega) (by omega)]
  simp

theorem readUInt32_int (value : UInt32) : readUInt32 (.int value.toNat) = some value := by
  have bound := value.toNat_lt
  rw [readUInt32, readInteger_int (by omega) (by omega) (by omega) (by omega)]
  simp

theorem readUInt64_int (value : UInt64) : readUInt64 (.int value.toNat) = some value := by
  have bound := value.toNat_lt
  rw [readUInt64, readInteger_int (by omega) (by omega) (by omega) (by omega)]
  simp

theorem readList_map {α β : Type} {read : Value → Option β} {write : α → Value} {kept : α → β}
    {items : List α} (back : ∀ item ∈ items, read (write item) = some (kept item)) :
    readList read (.array (items.map write)) = some (items.map kept) := by
  show (items.map write).mapM read = _
  induction items with
  | nil => rfl
  | cons item rest ih =>
    have first := back item List.mem_cons_self
    have others := ih fun item member => back item (List.mem_cons_of_mem _ member)
    simp [first, others]

/-! ### Normal forms -/

/-- A scalar as it comes back from its text: the signed kind goes first, and what is no number is
gone. -/
def Scalar.normalize : Scalar → Option Scalar
  | .uint value => some (if value.toNat < 2 ^ 63 then .int (.ofNat value.toNat) else .uint value)
  | .float value => if value.isFinite then some (.float value) else none
  | .int value => some (.int value)
  | .text value => some (.text value)

/-- An encoding with its scalars in normal form. -/
def Encoding.normalize (encoding : Encoding) : Encoding :=
  { encoding with
    least := encoding.least.bind Scalar.normalize
    greatest := encoding.greatest.bind Scalar.normalize
    null := encoding.null.bind Scalar.normalize
    constant := encoding.constant.bind Scalar.normalize }

/-- A token with its scalars in normal form. -/
def Token.normalize (token : Token) : Token := { token with encoding := token.encoding.normalize }

/-- A schema with its scalars in normal form. -/
def Schema.normalize (schema : Schema) : Schema :=
  { schema with
    header := schema.header.map Token.normalize
    types := schema.types.map (List.map Token.normalize)
    messages := schema.messages.map (List.map Token.normalize) }

/-- The scalars an encoding carries. -/
def Encoding.scalars (encoding : Encoding) : List Scalar :=
  [encoding.least, encoding.greatest, encoding.null, encoding.constant].filterMap id

/-- The tokens of a schema. -/
def Schema.tokens (schema : Schema) : List Token :=
  schema.header ++ schema.types.flatten ++ schema.messages.flatten

/-- The scalars a schema carries. -/
def Schema.scalars (schema : Schema) : List Scalar :=
  schema.tokens.flatMap fun token => token.encoding.scalars

/-- A double is read back from the text that is written for it. -/
def Survives (value : Double) : Prop :=
  (Json.parse (Value.double value).compact).bind Scalar.ofJson? = some (.float value)

/-- Every finite double of a schema is read back from its text. -/
def Schema.FloatsSurvive (schema : Schema) : Prop :=
  ∀ value, .float value ∈ schema.scalars → value.isFinite = true → Survives value

theorem survives_iff (value : Double) :
    Survives value ↔ Scalar.ofJson? (.double value) = some (.float value) := by
  rw [Survives, Json.parse_compact (Json.wellFormed_double value), Option.bind_some]

theorem Json.Value.double_of_not_isFinite {value : Double} (infinite : ¬ value.isFinite = true) :
    Value.double value = .null := by
  unfold Double.isFinite at infinite
  unfold Value.double
  cases shape : value.datum with
  | finite negative mantissa power => simp [shape] at infinite
  | infinite negative => rfl
  | nan => rfl

theorem Scalar.ofJson?_int (value : Int64) :
    Scalar.ofJson? (.int value.toInt) = some (.int value) := by
  have least := value.le_toInt
  have bound := value.toInt_lt
  rw [Json.int_eq, Scalar.ofJson?, Json.number?_int (by omega) (by omega)]
  simp

theorem Scalar.ofJson?_uint (value : UInt64) :
    Scalar.ofJson? (.int value.toNat) =
      some (if value.toNat < 2 ^ 63 then .int (.ofNat value.toNat) else .uint value) := by
  rw [Json.int_eq, Scalar.ofJson?]
  by_cases small : value.toNat < 2 ^ 63
  · rw [Json.number?_int (by omega) (by omega), if_pos small, Int64.ofInt_eq_ofNat]
  · rw [Json.number?_uint value (by omega), if_neg small]

/-- A scalar is read back in normal form. -/
theorem Scalar.readNullable_toJson (scalar : Scalar)
    (survive : ∀ value, scalar = .float value → value.isFinite = true → Survives value) :
    readNullable Scalar.ofJson? scalar.toJson = some scalar.normalize := by
  cases scalar with
  | int value => exact readNullable_of_some rfl (Scalar.ofJson?_int value)
  | uint value => exact readNullable_of_some rfl (Scalar.ofJson?_uint value)
  | text value => rfl
  | float value =>
    show readNullable Scalar.ofJson? (.double value) = some (if value.isFinite then _ else _)
    by_cases finite : value.isFinite = true
    · rw [if_pos finite]
      exact readNullable_of_some rfl ((survives_iff value).mp (survive value rfl finite))
    · rw [if_neg finite, Json.Value.double_of_not_isFinite finite]
      rfl

theorem Scalar.wellFormed_toJson (scalar : Scalar) : scalar.toJson.WellFormed := by
  cases scalar with
  | int value => exact Json.wellFormed_int value.toInt
  | uint value => exact Json.wellFormed_int value.toNat
  | float value => exact Json.wellFormed_double value
  | text value => exact .text value

theorem optional_scalar {fields : Fields} {key : String} {scalar : Option Scalar}
    (found : fields key = scalar.map Scalar.toJson)
    (survive : ∀ value, scalar = some (.float value) → value.isFinite = true → Survives value) :
    fields.optional key Scalar.ofJson? = some (scalar.bind Scalar.normalize) := by
  refine optional_of_map found fun content same => content.readNullable_toJson fun value kind => ?_
  subst same kind
  exact survive value rfl

/-! ### Encodings -/

namespace Encoding

/-- The members of the JSON form of an encoding. -/
def entries (encoding : Encoding) : List (String × Option Value) :=
  [("primitiveType", encoding.primitive.map fun primitive => .text primitive.name),
    ("byteOrder", some (.text encoding.byteOrder.name)),
    ("presence", some (.text encoding.presence.name)),
    ("minValue", encoding.least.map Scalar.toJson),
    ("maxValue", encoding.greatest.map Scalar.toJson),
    ("nullValue", encoding.null.map Scalar.toJson),
    ("constValue", encoding.constant.map Scalar.toJson),
    ("characterEncoding", encoding.charset.map .text),
    ("semanticType", encoding.semanticType.map .text),
    ("epoch", encoding.epoch.map .text),
    ("timeUnit", encoding.timeUnit.map .text)]

theorem toJson_eq (encoding : Encoding) : encoding.toJson = .record (present encoding.entries) := by
  have none : present [] = [] := rfl
  simp only [toJson, entries, present_cons_map, present_cons_some, none, List.append_assoc,
    List.cons_append, List.nil_append, List.append_nil]

theorem keys_entries (encoding : Encoding) : encoding.entries.map Prod.fst = keys := rfl

theorem ofJson?_toJson (encoding : Encoding)
    (survive : ∀ value, .float value ∈ encoding.scalars → value.isFinite = true → Survives value) :
    ofJson? encoding.toJson = some encoding.normalize := by
  have member {field : Option Scalar}
      (known : field ∈ [encoding.least, encoding.greatest, encoding.null, encoding.constant]) :
      ∀ value, field = some (.float value) → value.isFinite = true → Survives value := by
    rintro value rfl
    exact survive value (List.mem_filterMap.mpr ⟨_, known, rfl⟩)
  rw [toJson_eq, ofJson?, fields?_present (by rw [keys_entries]; decide)]
  generalize view : (fun key => (encoding.entries.lookup key).join) = fields
  have here (key : String) : fields key = (encoding.entries.lookup key).join := by rw [← view]
  refine bind_of_some rfl ?_
  refine bind_of_some (optional_of_exact (here "primitiveType") rfl readName_primitive) ?_
  refine bind_of_some (withDefault_of_some _ (here "byteOrder")
    (readName_byteOrder encoding.byteOrder)) ?_
  refine bind_of_some (withDefault_of_some _ (here "presence")
    (readName_presence encoding.presence)) ?_
  refine bind_of_some (optional_scalar (here "minValue") (member (by simp))) ?_
  refine bind_of_some (optional_scalar (here "maxValue") (member (by simp))) ?_
  refine bind_of_some (optional_scalar (here "nullValue") (member (by simp))) ?_
  refine bind_of_some (optional_scalar (here "constValue") (member (by simp))) ?_
  refine bind_of_some (optional_text (here "characterEncoding")) ?_
  refine bind_of_some (optional_text (here "semanticType")) ?_
  refine bind_of_some (optional_text (here "epoch")) ?_
  refine bind_of_some (optional_text (here "timeUnit")) ?_
  rfl

theorem wellFormed_toJson (encoding : Encoding) : encoding.toJson.WellFormed := by
  have scalar := wellFormed_of_map Scalar.wellFormed_toJson
  have text := wellFormed_of_map Value.WellFormed.text
  rw [toJson_eq]
  refine wellFormed_present ?_
  simp only [entries, List.forall_mem_cons, List.not_mem_nil, false_implies, implies_true, and_true]
  exact ⟨wellFormed_of_map (fun _ => .text _) _, wellFormed_of_some (.text _),
    wellFormed_of_some (.text _), scalar _, scalar _, scalar _, scalar _, text _, text _, text _,
    text _⟩

end Encoding

/-! ### Tokens -/

namespace Token

/-- The members of the JSON form of a token. -/
def entries (token : Token) : List (String × Option Value) :=
  [("signal", some (.text token.signal.name)), ("name", some (.text token.name)),
    ("referencedName", token.referencedName.map .text),
      ("description", token.description.map .text),
    ("id", some (.int token.id.toInt)), ("version", some (.int token.version.toNat)),
    ("offset", some (.int token.offset.toNat)),
    ("encodedLength", some (.int token.encodedLength.toNat)),
    ("componentTokenCount", some (.int token.componentTokenCount.toNat)),
    ("encoding", some token.encoding.toJson)]

theorem toJson_eq (token : Token) : token.toJson = .record (present token.entries) := by
  have none : present [] = [] := rfl
  simp only [toJson, entries, present_cons_map, present_cons_some, none, List.append_assoc,
    List.cons_append, List.nil_append]

theorem keys_entries (token : Token) : token.entries.map Prod.fst = keys := rfl

theorem ofJson?_toJson (token : Token)
    (survive : ∀ value, .float value ∈ token.encoding.scalars →
      value.isFinite = true → Survives value) :
    ofJson? token.toJson = some token.normalize := by
  rw [toJson_eq, ofJson?, fields?_present (by rw [keys_entries]; decide)]
  generalize view : (fun key => (token.entries.lookup key).join) = fields
  have here (key : String) : fields key = (token.entries.lookup key).join := by rw [← view]
  refine bind_of_some rfl ?_
  refine bind_of_some (required_of_some (here "signal") (readName_signal token.signal)) ?_
  refine bind_of_some (required_of_some (here "name") (readText_text token.name)) ?_
  refine bind_of_some (optional_text (here "referencedName")) ?_
  refine bind_of_some (optional_text (here "description")) ?_
  refine bind_of_some (withDefault_of_some _ (here "id") (readInt32_int token.id)) ?_
  refine bind_of_some (withDefault_of_some _ (here "version") (readUInt32_int token.version)) ?_
  refine bind_of_some (withDefault_of_some _ (here "offset") (readUInt64_int token.offset)) ?_
  refine bind_of_some (withDefault_of_some _ (here "encodedLength")
    (readUInt64_int token.encodedLength)) ?_
  refine bind_of_some (withDefault_of_some _ (here "componentTokenCount")
    (readUInt64_int token.componentTokenCount)) ?_
  refine bind_of_some (withDefault_of_some _ (here "encoding")
    (token.encoding.ofJson?_toJson survive)) ?_
  rfl

theorem wellFormed_toJson (token : Token) : token.toJson.WellFormed := by
  have text := wellFormed_of_map Value.WellFormed.text
  have int (value : Int) := wellFormed_of_some (Json.wellFormed_int value)
  rw [toJson_eq]
  refine wellFormed_present ?_
  simp only [entries, List.forall_mem_cons, List.not_mem_nil, false_implies, implies_true, and_true]
  exact ⟨wellFormed_of_some (.text _), wellFormed_of_some (.text _), text _, text _, int _, int _,
    int _, int _, int _, wellFormed_of_some token.encoding.wellFormed_toJson⟩

theorem wellFormed_listToJson (tokens : List Token) : (listToJson tokens).WellFormed :=
  wellFormed_array_map wellFormed_toJson tokens

end Token

/-! ### Schemas -/

namespace Schema

/-- The members of the JSON form of a schema. -/
def entries (schema : Schema) : List (String × Option Value) :=
  [("packageName", some (.text schema.packageName)), ("namespace", schema.namespaceName.map .text),
    ("id", some (.int schema.id.toInt)), ("version", some (.int schema.version.toNat)),
    ("semanticVersion", schema.semanticVersion.map .text),
    ("header", some (Token.listToJson schema.header)),
    ("types", some (.array (schema.types.map Token.listToJson))),
    ("messages", some (.array (schema.messages.map Token.listToJson)))]

theorem toJson_eq (schema : Schema) : schema.toJson = .record (present schema.entries) := by
  have none : present [] = [] := rfl
  simp only [toJson, entries, present_cons_map, present_cons_some, none, List.append_assoc,
    List.cons_append, List.nil_append]

theorem keys_entries (schema : Schema) : schema.entries.map Prod.fst = keys := rfl

theorem FloatsSurvive.token {schema : Schema} (survive : schema.FloatsSurvive) {token : Token}
    (member : token ∈ schema.tokens) : Token.ofJson? token.toJson = some token.normalize :=
  token.ofJson?_toJson fun value inside =>
    survive value (List.mem_flatMap.mpr ⟨token, member, inside⟩)

theorem ofJson?_toJson {schema : Schema} (survive : schema.FloatsSurvive) :
    ofJson? schema.toJson = some schema.normalize := by
  have header : Token.listOfJson? (Token.listToJson schema.header) =
      some (schema.header.map .normalize) := by
    refine readList_map fun token member => survive.token ?_
    exact List.mem_append_left _ (List.mem_append_left _ member)
  have types : readList Token.listOfJson? (.array (schema.types.map Token.listToJson)) =
      some (schema.types.map (List.map .normalize)) := by
    refine readList_map fun stream inside => readList_map fun token member => survive.token ?_
    exact List.mem_append_left _
      (List.mem_append_right _ (List.mem_flatten.mpr ⟨stream, inside, member⟩))
  have messages : readList Token.listOfJson? (.array (schema.messages.map Token.listToJson)) =
      some (schema.messages.map (List.map .normalize)) := by
    refine readList_map fun stream inside => readList_map fun token member => survive.token ?_
    exact List.mem_append_right _ (List.mem_flatten.mpr ⟨stream, inside, member⟩)
  rw [toJson_eq, ofJson?, fields?_present (by rw [keys_entries]; decide)]
  generalize view : (fun key => (schema.entries.lookup key).join) = fields
  have here (key : String) : fields key = (schema.entries.lookup key).join := by rw [← view]
  refine bind_of_some rfl ?_
  refine bind_of_some (required_of_some (here "packageName") (readText_text schema.packageName)) ?_
  refine bind_of_some (optional_text (here "namespace")) ?_
  refine bind_of_some (required_of_some (here "id") (readInt32_int schema.id)) ?_
  refine bind_of_some (withDefault_of_some _ (here "version") (readUInt32_int schema.version)) ?_
  refine bind_of_some (optional_text (here "semanticVersion")) ?_
  refine bind_of_some (required_of_some (here "header") header) ?_
  refine bind_of_some (withDefault_of_some _ (here "types") types) ?_
  refine bind_of_some (withDefault_of_some _ (here "messages") messages) ?_
  rfl

theorem wellFormed_toJson (schema : Schema) : schema.toJson.WellFormed := by
  have text := wellFormed_of_map Value.WellFormed.text
  have int (value : Int) := wellFormed_of_some (Json.wellFormed_int value)
  have streams (list : List (List Token)) :=
    wellFormed_of_some (wellFormed_array_map Token.wellFormed_listToJson list)
  rw [toJson_eq]
  refine wellFormed_present ?_
  simp only [entries, List.forall_mem_cons, List.not_mem_nil, false_implies, implies_true, and_true]
  exact ⟨wellFormed_of_some (.text _), text _, int _, int _, text _,
    wellFormed_of_some (Token.wellFormed_listToJson _), streams _, streams _⟩

/-- A schema is read back from its text in normal form. -/
theorem parse_toJson {schema : Schema} (survive : schema.FloatsSurvive) :
    parse schema.toJson.compact = .ok schema.normalize := by
  rw [parse, Json.parse_compact schema.wellFormed_toJson, Option.bind_some, ofJson?_toJson survive]
  rfl

end Schema

/-! ### What normal forms keep -/

/-- The ways a scalar gets its normal form. -/
theorem Scalar.normalize_cases {scalar other : Scalar} (made : scalar.normalize = some other) :
    scalar = other ∨
    ∃ value : UInt64, scalar = .uint value ∧ other = .int (.ofNat value.toNat) := by
  cases scalar with
  | int value => exact .inl (Option.some.inj made)
  | text value => exact .inl (Option.some.inj made)
  | uint value =>
    by_cases small : value.toNat < 2 ^ 63
    · simp only [Scalar.normalize, if_pos small, Option.some.injEq] at made
      exact .inr ⟨value, rfl, made.symm⟩
    · simp only [Scalar.normalize, if_neg small, Option.some.injEq] at made
      exact .inl made
  | float value =>
    by_cases finite : value.isFinite = true
    · simp only [Scalar.normalize, if_pos finite, Option.some.injEq] at made
      exact .inl made
    · simp [Scalar.normalize, finite] at made

theorem Scalar.normalize_of_normalize {scalar other : Scalar}
    (made : scalar.normalize = some other) : other.normalize = some other := by
  rcases Scalar.normalize_cases made with rfl | ⟨value, _, rfl⟩
  · exact made
  · rfl

theorem Scalar.eq_float_of_normalize {scalar : Scalar} {value : Double}
    (made : scalar.normalize = some (.float value)) : scalar = .float value := by
  rcases Scalar.normalize_cases made with rfl | ⟨_, _, kind⟩
  · rfl
  · cases kind

theorem Encoding.normalize_normalize (encoding : Encoding) :
    encoding.normalize.normalize = encoding.normalize := by
  have again (scalar : Option Scalar) :
      (scalar.bind Scalar.normalize).bind Scalar.normalize = scalar.bind Scalar.normalize := by
    cases made : scalar.bind Scalar.normalize with
    | none => rfl
    | some other =>
      obtain ⟨_, _, made⟩ := Option.bind_eq_some_iff.mp made
      exact Scalar.normalize_of_normalize made
  simp only [Encoding.normalize, again]

theorem Token.normalize_normalize (token : Token) :
    token.normalize.normalize = token.normalize := by
  simp only [Token.normalize, Encoding.normalize_normalize]

theorem Schema.normalize_normalize (schema : Schema) :
    schema.normalize.normalize = schema.normalize := by
  have tokens (list : List Token) : (list.map .normalize).map Token.normalize =
      list.map .normalize := by
    rw [List.map_map]
    exact List.map_congr_left fun token _ => token.normalize_normalize
  have streams (list : List (List Token)) :
      (list.map (List.map .normalize)).map (List.map Token.normalize) =
        list.map (List.map .normalize) := by
    rw [List.map_map]
    exact List.map_congr_left fun stream _ => tokens stream
  simp only [Schema.normalize, tokens, streams]

theorem Encoding.float_mem_scalars {encoding : Encoding} {value : Double}
    (member : .float value ∈ encoding.normalize.scalars) : .float value ∈ encoding.scalars := by
  have known : encoding.normalize.scalars =
      [encoding.least, encoding.greatest, encoding.null, encoding.constant].filterMap
        (·.bind Scalar.normalize) := rfl
  rw [known] at member
  obtain ⟨field, inside, made⟩ := List.mem_filterMap.mp member
  obtain ⟨scalar, rfl, made⟩ := Option.bind_eq_some_iff.mp made
  rw [Scalar.eq_float_of_normalize made] at inside
  exact List.mem_filterMap.mpr ⟨_, inside, rfl⟩

theorem Schema.tokens_normalize (schema : Schema) :
    schema.normalize.tokens = schema.tokens.map Token.normalize := by
  simp [Schema.tokens, Schema.normalize, List.map_flatten]

theorem Schema.FloatsSurvive.normalize {schema : Schema} (survive : schema.FloatsSurvive) :
    schema.normalize.FloatsSurvive := by
  intro value member
  obtain ⟨token, inside, member⟩ := List.mem_flatMap.mp member
  rw [Schema.tokens_normalize] at inside
  obtain ⟨original, known, rfl⟩ := List.mem_map.mp inside
  exact survive value (List.mem_flatMap.mpr ⟨original, known, Encoding.float_mem_scalars member⟩)

/-! ### What is read is in normal form -/

theorem Scalar.normalize_of_ofJson? {value : Value} {scalar : Scalar}
    (read : Scalar.ofJson? value = some scalar) : scalar.normalize = some scalar := by
  cases value with
  | number numeral =>
    unfold Scalar.ofJson? at read
    simp only at read
    cases found : numeral.number? with
    | none => simp [found] at read
    | some number =>
      cases number with
      | int value =>
        simp only [found, Option.some.injEq] at read
        subst read
        rfl
      | uint value =>
        simp only [found, Option.some.injEq] at read
        have large := Json.le_of_number?_uint found
        subst read
        rw [Scalar.normalize, if_neg (by omega)]
      | double value =>
        simp only [found, Option.some.injEq] at read
        subst read
        rw [Scalar.normalize, if_pos (Json.isFinite_of_number? found)]
  | string text =>
    obtain ⟨content, _, rfl⟩ := Option.map_eq_some_iff.mp read
    rfl
  | _ => cases read

theorem bind_normalize_of_optional {fields : Fields} {key : String} {scalar : Option Scalar}
    (read : fields.optional key Scalar.ofJson? = some scalar) :
    scalar.bind Scalar.normalize = scalar := by
  unfold Fields.optional at read
  split at read
  · cases read; rfl
  · cases read; rfl
  · obtain ⟨content, found, rfl⟩ := Option.map_eq_some_iff.mp read
    exact Scalar.normalize_of_ofJson? found

theorem Encoding.normalize_of_ofJson? {value : Value} {encoding : Encoding}
    (read : Encoding.ofJson? value = some encoding) : encoding.normalize = encoding := by
  simp only [Encoding.ofJson?, Option.bind_eq_bind, Option.bind_eq_some_iff] at read
  obtain ⟨fields, _, _, _, _, _, _, _, _, least, _, greatest, _, null, _, constant, _, _, _, _, _,
    _, _, _, read⟩ := read
  cases read
  simp only [Encoding.normalize, bind_normalize_of_optional least,
    bind_normalize_of_optional greatest, bind_normalize_of_optional null,
    bind_normalize_of_optional constant]

theorem Token.normalize_of_ofJson? {value : Value} {token : Token}
    (read : Token.ofJson? value = some token) : token.normalize = token := by
  simp only [Token.ofJson?, Option.bind_eq_bind, Option.bind_eq_some_iff] at read
  obtain ⟨fields, _, _, _, _, _, _, _, _, _, _, _, _, _, _, _, _, _, _, _, encoding, found, read⟩ :=
    read
  cases read
  have normal : encoding.normalize = encoding := by
    unfold Fields.withDefault at found
    split at found
    · cases found; rfl
    · exact Encoding.normalize_of_ofJson? found
  simp only [Token.normalize, normal]

theorem map_of_readList {α : Type} {read : Value → Option α} {keep : α → α}
    (each : ∀ value item, read value = some item → keep item = item) {value : Value}
    {items : List α} (found : readList read value = some items) : items.map keep = items := by
  cases value with
  | array values =>
    change values.mapM read = some items at found
    induction values generalizing items with
    | nil =>
      cases found
      rfl
    | cons first rest ih =>
      simp only [List.mapM_cons, Option.bind_eq_bind, Option.bind_eq_some_iff, Option.pure_def,
        Option.some.injEq] at found
      obtain ⟨item, one, others, more, rfl⟩ := found
      rw [List.map_cons, each first item one, ih more]
  | _ => cases found

/-- A schema that was read is in normal form. -/
theorem Schema.normalize_of_ofJson? {value : Value} {schema : Schema}
    (read : Schema.ofJson? value = some schema) : schema.normalize = schema := by
  have tokens (value : Value) (list : List Token) (found : Token.listOfJson? value = some list) :
      list.map .normalize = list := map_of_readList (fun _ _ => Token.normalize_of_ofJson?) found
  have streams {fields : Fields} {key : String} {list : List (List Token)}
      (found : fields.withDefault key [] (readList Token.listOfJson?) = some list) :
      list.map (List.map .normalize) = list := by
    unfold Fields.withDefault at found
    split at found
    · cases found
      rfl
    · exact map_of_readList tokens found
  simp only [Schema.ofJson?, Option.bind_eq_bind, Option.bind_eq_some_iff] at read
  obtain ⟨fields, _, _, _, _, _, _, _, _, _, _, _, header, found, types, typesFound, messages,
    messagesFound, read⟩ := read
  cases read
  obtain ⟨_, _, found⟩ := Option.bind_eq_some_iff.mp found
  simp only [Schema.normalize, tokens _ _ found, streams typesFound, streams messagesFound]

theorem Schema.normalize_of_parse {text : String} {schema : Schema}
    (read : parse text = .ok schema) : schema.normalize = schema := by
  unfold Schema.parse at read
  cases found : (Json.parse text).bind ofJson? with
  | none => simp [found, Outcome.ofOption, Outcome.refuse] at read
  | some other =>
    simp only [found, Outcome.ofOption, Except.ok.injEq] at read
    subst read
    obtain ⟨value, _, made⟩ := Option.bind_eq_some_iff.mp found
    exact Schema.normalize_of_ofJson? made

namespace Schema

/-- A schema comes back from its compact text in normal form; that form comes back unchanged, and so
does every schema that was itself read from text. -/
theorem parse_compact_eq_normalize (schema : Schema) (survive : schema.FloatsSurvive) :
    parse schema.toJson.compact = .ok schema.normalize ∧
      parse schema.normalize.toJson.compact = .ok schema.normalize ∧
      ∀ text, parse text = .ok schema → parse schema.toJson.compact = .ok schema := by
  refine ⟨parse_toJson survive, ?_, fun text read => ?_⟩
  · rw [parse_toJson survive.normalize, normalize_normalize]
  · rw [parse_toJson survive, normalize_of_parse read]

/-- A schema with every kind of scalar, and with text that has to be escaped. -/
def oddPrices : Schema where
  packageName := "\"odd\"\n"
  id := -3
  header := [{
    signal := .encoding
    name := "prix \\ é"
    description := some ""
    encoding := {
      primitive := some .double
      least := some (.uint 5)
      greatest := some (.uint 18446744073709551615)
      null := some (.float .nan)
      constant := some (.float ⟨0x3fb999999999999a⟩) } }]
  types := [[]]

theorem oddPrices_floatsSurvive : oddPrices.FloatsSurvive := by
  intro value member finite
  have known : oddPrices.scalars =
    [.uint 5, .uint 18446744073709551615, .float .nan, .float ⟨0x3fb999999999999a⟩] := rfl
  rw [known] at member
  simp only [List.mem_cons, List.not_mem_nil, or_false, reduceCtorEq, false_or,
    Scalar.float.injEq] at member
  rcases member with rfl | rfl
  · exact absurd finite (by decide)
  · rw [survives_iff]
    decide +kernel

/-- The small number becomes signed and what is no number is left out. -/
theorem parse_compact_oddPrices :
    oddPrices.FloatsSurvive ∧
      parse oddPrices.toJson.compact = .ok { oddPrices with
        header := [{
          signal := .encoding
          name := "prix \\ é"
          description := some ""
          encoding := {
            primitive := some .double
            least := some (.int 5)
            greatest := some (.uint 18446744073709551615)
            constant := some (.float ⟨0x3fb999999999999a⟩) } }] } :=
  ⟨oddPrices_floatsSurvive,
    (parse_compact_eq_normalize oddPrices oddPrices_floatsSurvive).1.trans (by rfl)⟩

end Schema

end Sbe
