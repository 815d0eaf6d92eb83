/-
Why a byte string is not an encoded message.

A fault is what is wrong at one place; an error is a fault together with the
known fields around that place, outermost first.
-/
namespace ProtoPhp.Wire

/-- The six ways in which a field's value is laid out on the wire. -/
inductive WireType where
  | varint
  | fixed64
  | lengthDelimited
  | startGroup
  | endGroup
  | fixed32
  deriving Repr, DecidableEq, Inhabited

/-- The name of a wire type in error texts. -/
def WireType.label : WireType → String
  | .varint => "Varint"
  | .fixed64 => "SixtyFourBit"
  | .lengthDelimited => "LengthDelimited"
  | .startGroup => "StartGroup"
  | .endGroup => "EndGroup"
  | .fixed32 => "ThirtyTwoBit"

/-- What is wrong at one place of the input. -/
inductive Fault where
  /-- A number is cut short, longer than ten bytes, or above 64 bits. -/
  | invalidVarint
  /-- A field key does not fit in 32 bits. -/
  | invalidKey (key : Nat)
  /-- The low three bits of a key name no wire type. -/
  | invalidWireType (code : Nat)
  /-- A key carries the field number zero. -/
  | zeroTag
  /-- A known field is laid out in another way than its type asks for. -/
  | unexpectedWireType (actual expected : WireType)
  /-- A value is longer than what is left of the input. -/
  | bufferUnderflow
  /-- A string field holds bytes that are not UTF-8. -/
  | invalidUtf8
  /-- Messages or groups are nested too deep. -/
  | recursionLimit
  /-- A group ends that is not the innermost open one. -/
  | unexpectedEndGroup
  deriving Repr, DecidableEq, Inhabited

/-- The text of a fault. -/
def Fault.message : Fault → String
  | .invalidVarint => "invalid varint"
  | .invalidKey key => "invalid key value: " ++ toString key
  | .invalidWireType code => "invalid wire type value: " ++ toString code
  | .zeroTag => "invalid tag value: 0"
  | .unexpectedWireType actual expected =>
    "invalid wire type: " ++ actual.label ++ " (expected " ++ expected.label ++ ")"
  | .bufferUnderflow => "buffer underflow"
  | .invalidUtf8 => "invalid string value: data is not UTF-8 encoded"
  | .recursionLimit => "recursion limit reached"
  | .unexpectedEndGroup => "unexpected end group tag"

/-- A fault and the known fields that enclose it, outermost first. -/
structure DecodeError where
  fields : List String
  fault : Fault
  deriving Repr, DecidableEq, Inhabited

namespace DecodeError

/-- A fault that no known field encloses. -/
def ofFault (f : Fault) : DecodeError := ⟨[], f⟩

/-- Places an error inside a known field. -/
def within (field : String) (e : DecodeError) : DecodeError := ⟨field :: e.fields, e.fault⟩

/-- The text of an error: the fields on the way to the fault, then the fault. -/
def message (e : DecodeError) : String :=
  "failed to decode Protobuf message: " ++ String.join (e.fields.map (· ++ ": ")) ++
    e.fault.message

end DecodeError

end ProtoPhp.Wire
