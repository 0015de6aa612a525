/-!
**Signals.**

A token stream lists a tree of schema elements in pre-order. The signal of a token says which kind
of element it stands for and whether it opens the element, closes it, or is the whole of it.
-/

namespace Sbe

/-- What a token stands for. -/
inductive Signal where
  | beginMessage
  | endMessage
  | beginComposite
  | endComposite
  | beginField
  | endField
  | beginGroup
  | endGroup
  | beginEnum
  | validValue
  | endEnum
  | beginSet
  | choice
  | endSet
  | beginVarData
  | endVarData
  | encoding
deriving DecidableEq

namespace Signal

/-- The signal that closes what this one opens. -/
def closing? : Signal → Option Signal
  | beginMessage => some endMessage
  | beginComposite => some endComposite
  | beginField => some endField
  | beginGroup => some endGroup
  | beginEnum => some endEnum
  | beginSet => some endSet
  | beginVarData => some endVarData
  | _ => none

/-- Whether the signal opens an element. -/
def isBegin (signal : Signal) : Bool := signal.closing?.isSome

/-- Whether the signal closes an element. -/
def isEnd : Signal → Bool
  | endMessage | endComposite | endField | endGroup | endEnum | endSet | endVarData => true
  | _ => false

/-- Whether the signal opens a composite, an enumeration or a set: what a schema names as a type. -/
def opensType : Signal → Bool
  | beginComposite | beginEnum | beginSet => true
  | _ => false

/-- Every signal. -/
def all : List Signal :=
  [beginMessage, endMessage, beginComposite, endComposite, beginField, endField, beginGroup,
    endGroup, beginEnum, validValue, endEnum, beginSet, choice, endSet, beginVarData, endVarData,
    encoding]

/-- The name of a signal in the JSON form of a token. -/
def name : Signal → String
  | beginMessage => "BEGIN_MESSAGE"
  | endMessage => "END_MESSAGE"
  | beginComposite => "BEGIN_COMPOSITE"
  | endComposite => "END_COMPOSITE"
  | beginField => "BEGIN_FIELD"
  | endField => "END_FIELD"
  | beginGroup => "BEGIN_GROUP"
  | endGroup => "END_GROUP"
  | beginEnum => "BEGIN_ENUM"
  | validValue => "VALID_VALUE"
  | endEnum => "END_ENUM"
  | beginSet => "BEGIN_SET"
  | choice => "CHOICE"
  | endSet => "END_SET"
  | beginVarData => "BEGIN_VAR_DATA"
  | endVarData => "END_VAR_DATA"
  | encoding => "ENCODING"

/-- The word for a signal in messages. -/
def word : Signal → String
  | beginMessage => "BeginMessage"
  | endMessage => "EndMessage"
  | beginComposite => "BeginComposite"
  | endComposite => "EndComposite"
  | beginField => "BeginField"
  | endField => "EndField"
  | beginGroup => "BeginGroup"
  | endGroup => "EndGroup"
  | beginEnum => "BeginEnum"
  | validValue => "ValidValue"
  | endEnum => "EndEnum"
  | beginSet => "BeginSet"
  | choice => "Choice"
  | endSet => "EndSet"
  | beginVarData => "BeginVarData"
  | endVarData => "EndVarData"
  | encoding => "Encoding"

/-- The signal with a given name. -/
def ofName? (name : String) : Option Signal := all.find? fun signal => signal.name == name

end Signal

end Sbe
