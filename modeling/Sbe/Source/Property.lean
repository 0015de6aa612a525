import Sbe.Layout
import Sbe.Source.Side
import Sbe.Text.Charset

/-!
**Properties of the fixed block.**

A property is a field of a message or group, or a member of a composite. A field has an opening
token that carries its id, version and description; a member is described by the tokens of its type
alone.
-/

namespace Sbe.Source

open Sbe.Text (Charset)

/-- Where a property stands; only bodies of messages and groups are versioned. -/
inductive Scope where
  | body
  | composite
deriving DecidableEq

/-- A property: its field token, if it is a field, and the tokens of its type. -/
structure Property where
  field : Option Token
  first : Token
  others : List Token
deriving DecidableEq

namespace Property

/-- The property of a field. -/
def ofField (layout : FieldLayout) : Result Property :=
  match layout.type with
  | [] => .refuse (.emptyTokens .fieldType)
  | first :: others => .ok ⟨some layout.field, first, others⟩

/-- The token that describes the property. -/
def described (property : Property) : Token := property.field.getD property.first

/-- The name of the property in the schema. -/
def name (property : Property) : String := property.described.name

/-- The version that introduced the property. -/
def since (property : Property) : UInt32 := property.described.version

/-- Whether the schema fixes the value of the property. -/
def isConstant (property : Property) : Bool :=
  property.first.isConstant || (property.field.map Token.isConstant).getD false

/-- The value that the schema fixes. -/
def constant? (property : Property) : Option Scalar :=
  property.first.encoding.constant.or (property.field.bind fun field => field.encoding.constant)

/-- Whether the property shows in the text of its codec: it is on the wire. -/
def isShown (property : Property) : Bool :=
  !property.isConstant && decide (0 < property.first.encodedLength)

/-- Whether an accessor tests the version first. -/
def isGuarded (property : Property) (side : Side) (scope : Scope) : Bool :=
  side == .decoder && scope == .body && decide (0 < property.since)

end Property

/-- The members of a composite, given the index of the first token among all of them. A member is a
whole span as its opening token counts it, cut off at the end of the composite. -/
def members (index : Nat) : List Token → Result (List Property)
  | [] => .ok []
  | token :: rest =>
    let span := if token.signal.isBegin then max token.span 1 else 1
    if wordBound ≤ index + span then .fault
    else do
      let others := rest.take (span - 1)
      let later ← members (index + 1 + others.length) (rest.drop (span - 1))
      pure (⟨none, token, others⟩ :: later)
termination_by tokens => tokens.length
decreasing_by simp only [List.length_drop, List.length_cons]; omega

/-- An early return for messages older than an element. -/
def guard (since : UInt32) (fallback : String) : Code :=
  Code.block ("if self.cursor.acting_version() < " ++ toString since.toNat)
    ["return " ++ fallback ++ ";"]

/-- An early return where one is needed. -/
def guardIf (guarded : Bool) (since : UInt32) (fallback : String) : Code :=
  if guarded then guard since fallback else []

/-- The character set of a token, US-ASCII where it names none. -/
def charset (token : Token) : Result Charset :=
  let name := token.encoding.charset.getD "US-ASCII"
  .ofOption (.unsupportedCharset token.name name) (Charset.ofName? name)

/-- The expression for a character set. -/
def charsetPath : Charset → String
  | .ascii => "CharacterEncoding::Ascii"
  | .utf8 => "CharacterEncoding::Utf8"
  | .latin1 => "CharacterEncoding::Latin1"

/-- The function that tells the descriptive attributes of a token. -/
def metaAttributes (accessor : String) (token : Token) : Code :=
  let arm (kind value : String) := "MetaAttribute::" ++ kind ++ " => " ++
    Text.quote value ++ ","
  Code.function (accessor ++ "_meta_attribute(meta_attribute: MetaAttribute) -> &'static str") <|
    Code.block "match meta_attribute"
      [arm "Epoch       " (token.encoding.epoch.getD ""),
        arm "TimeUnit    " (token.encoding.timeUnit.getD ""),
        arm "SemanticType" (token.encoding.semanticType.getD ""),
        arm "Presence    " token.encoding.presence.name]

end Sbe.Source
