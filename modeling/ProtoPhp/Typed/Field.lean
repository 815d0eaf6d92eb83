/-
Fields of message types.

A field tells how the values of its number are laid out, how many of them a
message keeps, which value an absent field reads as, and whether that value is
told apart from an absent one.  A schema gives the fields of each message type
by number and by name, and the numbers of enum values.

* `Typed.layout` — the layout of the values of a type;
* `Typed.Field` — a field of a message type;
* `Typed.Schema` — what is known of message types and enums.
-/
import ProtoPhp.Typed.Scalar

namespace ProtoPhp.Typed

open Descriptor Wire

/-- The layout of the values of a type. -/
def layout : FieldType → WireType
  | .double | .fixed64 | .sfixed64 => .fixed64
  | .float | .fixed32 | .sfixed32 => .fixed32
  | .string | .bytes | .message => .lengthDelimited
  | .group => .startGroup
  | .int64 | .uint64 | .int32 | .bool | .uint32 | .enum | .sint32 | .sint64 => .varint

/-- A type whose repeated values may be packed into one record. -/
def isPackable (type : FieldType) : Bool :=
  match layout type with
  | .varint | .fixed64 | .fixed32 => true
  | .lengthDelimited | .startGroup | .endGroup => false

/-- A type whose values are messages. -/
def isMessage (type : FieldType) : Bool := type = .message || type = .group

/-- A field of a message type, or an extension of it. -/
structure Field where
  name : String
  number : Nat
  type : FieldType
  /-- The full name of the message or enum that the values belong to. -/
  target : String := ""
  repeated : Bool := false
  /-- The values are entries, each with a key and a value; a later entry replaces an earlier one
  with the same key. -/
  isMap : Bool := false
  /-- The group of fields of which only the one that came last is set. -/
  oneof : Option Nat := none
  isExtension : Bool := false
  /-- The value that an absent field reads as, if the field holds single values that are no
  messages. -/
  defaultValue : Scalar := .zero type
  /-- An explicit default value is told apart from an absent one. -/
  hasPresence : Bool := true
  /-- Repeated values are written into one record. -/
  packed : Bool := false
  deriving Repr, DecidableEq, Inhabited

/-- A repeated field that comes packed. -/
def Field.isPackedIn (f : Field) (key : Key) : Bool :=
  f.repeated && isPackable f.type && key.type = .lengthDelimited

/-- What is known of message types and enums. -/
structure Schema where
  /-- The field or extension of a message type with a number. -/
  field? : (type : String) → (number : Nat) → Option Field
  /-- The field of a message type with a name. -/
  named? : (type name : String) → Option Field
  /-- The number of a value of an enum. -/
  enumNumber? : (enum value : String) → Option Int

/-- The field of the key and the field of the value in the entries of a map field. -/
def Schema.entryFields? (s : Schema) (f : Field) : Option (Field × Field) := do
  return (← s.field? f.target 1, ← s.field? f.target 2)

/-- The text of the type of one value of a field. -/
def Field.valueText (f : Field) : String :=
  if isMessage f.type || f.type = .enum then f.target else f.type.keyword

/-- The text of the type of a field. -/
def Schema.typeText (s : Schema) (f : Field) : String :=
  if f.isMap then
    let part (number : Nat) := ((s.field? f.target number).map Field.valueText).getD ""
    "map<" ++ part 1 ++ ", " ++ part 2 ++ ">"
  else if f.repeated then "repeated " ++ f.valueText
  else f.valueText

end ProtoPhp.Typed
