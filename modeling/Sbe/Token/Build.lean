import Sbe.Schema

/-!
**Building token streams.**

The functions here assemble well-nested streams from descriptions. They fill in how many tokens each
element spans; offsets and block lengths are the caller's, as they are the schema's.
-/

namespace Sbe.Build

/-- An opening token, the tokens of its element, and the token that closes it. The closing token
repeats all the opening one says, and both carry the number of tokens of the whole. -/
def enclose (opening : Token) (inner : List Token) : List Token :=
  let opening := { opening with componentTokenCount := .ofNat (inner.length + 2) }
  let closing := { opening with signal := opening.signal.closing?.getD opening.signal }
  opening :: inner ++ [closing]

/-- A single value at an offset. -/
def value (name : String) (offset : UInt64) (encoding : Encoding) : Token :=
  { signal := .encoding, name, offset, encodedLength := .ofNat encoding.size, encoding }

/-- A fixed number of values at an offset; a fault when their size leaves the word range. -/
def array (name : String) (offset length : UInt64) (encoding : Encoding) : Result Token := do
  let size ← mulSize encoding.size length.toNat
  pure { signal := .encoding, name, offset, encodedLength := .ofNat size, encoding }

/-- A constant, which takes no space on the wire. -/
def constant (name : String) (primitive : Primitive) (constant : Scalar) : Token :=
  { signal := .encoding, name, encoding := (Encoding.of primitive).withConstant constant }

/-- The token of an enum value or a set choice. -/
def named (signal : Signal) (primitive : Option Primitive) (entry : String × Scalar) : Token :=
  { signal, name := entry.1, encoding := { primitive, constant := some entry.2 } }

/-- An enumeration with its values. -/
def enumeration (name : String) (offset : UInt64) (encoding : Encoding)
    (values : List (String × Scalar)) : List Token :=
  enclose { signal := .beginEnum, name, offset, encodedLength := .ofNat encoding.size, encoding }
    (values.map (named .validValue encoding.primitive))

/-- A set with the bits of its choices. -/
def bitSet (name : String) (offset : UInt64) (encoding : Encoding)
    (choices : List (String × UInt64)) : List Token :=
  enclose { signal := .beginSet, name, offset, encodedLength := .ofNat encoding.size, encoding }
    (choices.map fun choice => named .choice encoding.primitive (choice.1, .uint choice.2))

/-- A composite whose members have offsets of their own. -/
def composite (name : String) (offset encodedLength : UInt64) (members : List (List Token)) :
    List Token :=
  enclose { signal := .beginComposite, name, offset, encodedLength } members.flatten

/-- A field around the tokens of its type. The first of them takes the version of the field, and the
field takes its offset, its length and, if it is a plain value, its encoding. -/
def field (name : String) (id : Int32) (version : UInt32) (type : List Token) : List Token :=
  let opening : Token := { signal := .beginField, name, id, version }
  match type with
  | [] => enclose opening []
  | first :: rest =>
    let first := { first with version }
    let encoding := if first.signal = .encoding then first.encoding else {}
    enclose
      { opening with offset := first.offset, encodedLength := first.encodedLength, encoding }
      (first :: rest)

/-- A repeating group: its dimensions, then its body. -/
def group (name : String) (id : Int32) (version : UInt32) (blockLength : UInt64)
    (dimensions : List Token) (body : List (List Token)) : List Token :=
  enclose { signal := .beginGroup, name, id, version, encodedLength := blockLength }
    (dimensions ++ body.flatten)

/-- A field of variable length around its composite. -/
def varData (name : String) (id : Int32) (version : UInt32) (type : List Token) : List Token :=
  enclose { signal := .beginVarData, name, id, version } type

/-- A message with its body. -/
def message (name : String) (id : Int32) (blockLength : UInt64) (body : List (List Token)) :
    List Token :=
  enclose { signal := .beginMessage, name, id, encodedLength := blockLength } body.flatten

/-- The usual message header: four fields of two bytes. -/
def messageHeader : List Token :=
  let part (field : HeaderField) (offset : UInt64) := [value field.name offset (.of .uint16)]
  composite "messageHeader" 0 8
    [part .blockLength 0, part .templateId 2, part .schemaId 4, part .version 6]

/-- The usual dimensions of a group: block length and count, of two bytes each. -/
def groupSize : List Token :=
  composite "groupSizeEncoding" 0 4
    [[value "blockLength" 0 (.of .uint16)], [value "numInGroup" 2 (.of .uint16)]]

/-- A length of four bytes, at most `greatest`, and the bytes it counts. With a character set they
are text. -/
def sizedData (greatest : Int64) (charset : Option String) : List Token :=
  composite "varDataEncoding" 0 0
    [[value "length" 0 { Encoding.of .uint32 with greatest := some (.int greatest) }],
      [{ signal := .encoding, name := "varData", offset := 4,
          encoding := { Encoding.of .uint8 with charset } }]]

/-- The usual field of variable length. -/
def varDataEncoding (charset : Option String) : List Token := sizedData 1073741824 charset

end Sbe.Build
