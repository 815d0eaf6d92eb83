/-
Decoded messages.

A message type is given by the shapes of its fields.  Decoding checks every
known field against its shape, skips unknown fields, and keeps the values of
the known ones in the order in which they come.  Messages may nest a hundred
deep; unknown fields count as one more level.

* `Wire.decode` — the known fields of an encoded message;
* `Wire.Fields.text?`, `Wire.Fields.texts`, … — views of decoded fields: a single
  field has its last value, a repeated one all of them.
-/
import ProtoPhp.Wire.Record
import ProtoPhp.Wire.Utf8

namespace ProtoPhp.Wire

/-- What the value of a field is. -/
inductive FieldKind where
  | varint
  | bool
  | fixed64
  | text
  | bytes
  | message (type : String)
  /-- An option message: checked like a message and kept as it is encoded. -/
  | options (type : String)
  deriving Repr, DecidableEq, Inhabited

/-- What is known about a field of a message. -/
structure FieldShape where
  /-- The name of the field in error texts, with the name of its message. -/
  name : String
  kind : FieldKind
  repeated : Bool := false
  deriving Repr, DecidableEq, Inhabited

/-- The known fields of each message type, by number. -/
abbrev Shapes := String → Nat → Option FieldShape

/-- The value of a decoded field. -/
inductive Value where
  | varint (n : Nat)
  | bool (b : Bool)
  | fixed (bytes : Bytes)
  | text (s : String)
  | bytes (bytes : Bytes)
  | message (fields : List (Nat × Value))
  deriving Repr, Inhabited

/-- The decoded fields of a message, in order, each with its number. -/
abbrev Fields := List (Nat × Value)

/-- The layout that the type of a field asks for. -/
def FieldKind.wireType : FieldKind → WireType
  | .varint | .bool => .varint
  | .fixed64 => .fixed64
  | .text | .bytes | .message _ | .options _ => .lengthDelimited

/-- A type whose repeated values may be packed into one record. -/
def FieldKind.isPackable : FieldKind → Bool
  | .varint | .bool | .fixed64 => true
  | .text | .bytes | .message _ | .options _ => false

/-- A repeated field that comes packed. -/
def FieldShape.isPacked (shape : FieldShape) (key : Key) : Bool :=
  shape.repeated && shape.kind.isPackable && key.type = .lengthDelimited

/-- Places an error inside a field, if the field is known. -/
def withinField (shape : Option FieldShape) (e : DecodeError) : DecodeError :=
  match shape with
  | some shape => e.within shape.name
  | none => e

/-- Reads the value after a key.  The value of a known field has the layout of that field; the value
of an unknown field takes one level. -/
def readValue (shape : Option FieldShape) (depth : Nat) (key : Key) (input : Bytes) :
    Except Fault (Payload × Bytes) :=
  match shape with
  | some shape =>
    if shape.isPacked key ∨ key.type = shape.kind.wireType then readScalar key.type input
    else .error (.unexpectedWireType key.type shape.kind.wireType)
  | none => readPayload 1 depth key input

theorem readValue_length {shape : Option FieldShape} {depth : Nat} {key : Key}
    {input rest : Bytes} {payload : Payload}
    (h : readValue shape depth key input = .ok (payload, rest)) :
    rest.length ≤ input.length := by
  simp only [readValue] at h
  split at h
  · split at h
    · exact Nat.le_of_lt (readScalar_length h)
    · cases h
  · exact readPayload_length h

/-- The value of a payload that may be packed. -/
def Payload.unpacked : Payload → Value
  | .varint n => .varint n
  | .fixed64 b | .fixed32 b | .bytes b | .group b => .fixed b

/-- The values that a payload holds; `inner` decodes the messages one level deeper.  An option
message is read twice: as one of unknown fields, which are kept, and as one of its type. -/
def FieldShape.values (shape : FieldShape) (inner : String → Bytes → Except DecodeError Fields)
    (payload : Payload) : Except DecodeError (List Value) :=
  match shape.kind, payload with
  | .varint, .varint n => .ok [.varint n]
  | .bool, .varint n => .ok [.bool (n != 0)]
  | .fixed64, .fixed64 b => .ok [.fixed b]
  | .text, .bytes b =>
    match decodeText b with
    | some s => .ok [.text s]
    | none => .error (.ofFault .invalidUtf8)
  | .bytes, .bytes b => .ok [.bytes b]
  | .message type, .bytes b => (fun fields => [.message fields]) <$> inner type b
  | .options type, .bytes b => do
    let _ ← inner "" b
    let _ ← inner type b
    return [.bytes b]
  | kind, .bytes b =>
    match unpack kind.wireType b with
    | .ok payloads => .ok (payloads.map Payload.unpacked)
    | .error f => .error (.ofFault f)
  | _, _ => .ok []

/-- The known fields of a message of one type; `inner` decodes the messages one level deeper. -/
def decodeFields (shapes : Nat → Option FieldShape) (depth : Nat)
    (inner : String → Bytes → Except DecodeError Fields) (input : Bytes) :
    Except DecodeError Fields :=
  if input = [] then .ok []
  else
    match _ : readKey input with
    | .error f => .error (.ofFault f)
    | .ok (key, rest) =>
      match _ : readValue (shapes key.number) depth key rest with
      | .error f => .error (withinField (shapes key.number) (.ofFault f))
      | .ok (payload, rest') =>
        match ((shapes key.number).elim (.ok []) (·.values inner payload) :
            Except DecodeError (List Value)) with
        | .error e => .error (withinField (shapes key.number) e)
        | .ok values =>
          match decodeFields shapes depth inner rest' with
          | .error e => .error e
          | .ok fields => .ok (values.map (key.number, ·) ++ fields)
termination_by input.length
decreasing_by
  exact Nat.lt_of_le_of_lt (readValue_length (by assumption)) (readKey_length (by assumption))

/-- The known fields of a message of type `type`, in which messages may nest `depth` deep. -/
def decode (shapes : Shapes) : (depth : Nat) → (type : String) → Bytes → Except DecodeError Fields
  | 0, type => decodeFields (shapes type) 0 fun _ _ => .error (.ofFault .recursionLimit)
  | depth + 1, type => decodeFields (shapes type) (depth + 1) (decode shapes depth)

/-- How deep messages and groups may nest. -/
def maxDepth : Nat := 100

namespace Fields

/-- The values of a field, in order. -/
def values (fields : Fields) (number : Nat) : List Value :=
  (fields.filter (·.1 == number)).map Prod.snd

/-- The texts of a repeated field. -/
def texts (fields : Fields) (number : Nat) : List String :=
  (fields.values number).filterMap fun
    | .text s => some s
    | _ => none

/-- The text of a single field. -/
def text? (fields : Fields) (number : Nat) : Option String := (fields.texts number).getLast?

/-- The byte strings of a repeated field. -/
def byteStrings (fields : Fields) (number : Nat) : List Bytes :=
  (fields.values number).filterMap fun
    | .bytes b => some b
    | _ => none

/-- The numbers of a repeated field. -/
def numbers (fields : Fields) (number : Nat) : List Nat :=
  (fields.values number).filterMap fun
    | .varint n => some n
    | _ => none

/-- The value of a number that is cut to 32 bits and read as signed. -/
def toInt32 (n : Nat) : Int := Int.bmod n (2 ^ 32)

/-- The signed numbers of a repeated field. -/
def ints (fields : Fields) (number : Nat) : List Int := (fields.numbers number).map toInt32

/-- The signed number of a single field. -/
def int? (fields : Fields) (number : Nat) : Option Int := (fields.ints number).getLast?

/-- The number of a single field. -/
def number? (fields : Fields) (number : Nat) : Option Nat := (fields.numbers number).getLast?

/-- The byte string of a single field. -/
def bytes? (fields : Fields) (number : Nat) : Option Bytes :=
  (fields.byteStrings number).getLast?

/-- The bytes of a single field of fixed width. -/
def fixed? (fields : Fields) (number : Nat) : Option Bytes :=
  ((fields.values number).filterMap fun
    | .fixed b => some b
    | _ => none).getLast?

/-- The truth value of a single field. -/
def bool? (fields : Fields) (number : Nat) : Option Bool :=
  ((fields.values number).filterMap fun
    | .bool b => some b
    | _ => none).getLast?

/-- The truth value of a single field; absent is false. -/
def flag (fields : Fields) (number : Nat) : Bool := (fields.bool? number).getD false

/-- The messages of a repeated field. -/
def messages (fields : Fields) (number : Nat) : List Fields :=
  (fields.values number).filterMap fun
    | .message fs => some fs
    | _ => none

end Fields

end ProtoPhp.Wire
