/-
The pool as a schema of messages.

The messages, extensions and enums of a pool are a schema by which encoded
messages are read and written.  A file may bring the standard option types
along; where it does not, the built-in ones stand in.

* `Pool.ofField`, `Pool.ofExtension` — a linked field as a field of a message type;
* `Pool.defaultOf` — the value that an absent field reads as;
* `Pool.schema`, `Pool.schemaOf` — the schema of the pool, and the one that knows a type.
-/
import ProtoPhp.Descriptor.Standard
import ProtoPhp.Pool.Basic
import ProtoPhp.Pool.DefaultValue

namespace ProtoPhp.Pool

open Descriptor

/-- The full name that a linked field refers to, without the leading dot. -/
def targetOf (f : Field) : String := String.ofList ((f.typeName.getD "").toList.drop 1)

/-- The type of the values of a linked field.  A group that names an enum holds values of that
enum. -/
def typeOf (p : Pool) (f : Field) : FieldType :=
  if f.type = .group && (p.message? (targetOf f)).isNone then .enum else f.type

/-- The message with a full name stands for the entries of a map field. -/
def isMapEntry (p : Pool) (name : String) : Bool :=
  (p.message? name).any fun m => (decodeOptions "google.protobuf.MessageOptions" m.options).flag 7

/-- The file with a name takes fields without a mark for fields without presence. -/
def isProto3 (p : Pool) (file : String) : Bool := (p.file? file).any (·.proto3)

/-- The values of a linked field are written into one record, as its options say, or its file if it
has none. -/
def isPacked (p : Pool) (file : String) (f : Field) : Bool :=
  f.label = .repeated && Typed.isPackable (p.typeOf f) &&
    match f.options with
    | some options => (decodeOptions "google.protobuf.FieldOptions" options).flag 2
    | none => p.isProto3 file

/-- The value that an absent linked field reads as: its default value, else the first value of an
enum and the zero of any other type. -/
def defaultOf (p : Pool) (f : Field) : Typed.Scalar :=
  let type := p.typeOf f
  let enum := (p.find? (targetOf f)).bind Definition.enum?
  let first : Option Typed.Scalar := do
    let value ← (← enum).values.head?
    return .enum value.number
  ((f.defaultValue.bind (DefaultValue.value? type enum)) <|> first).getD (.zero type)

/-- An extension that a file declares, as a field of the message type that it extends. -/
def ofExtension (p : Pool) (file : String) (f : Field) : Typed.Field where
  name := f.name
  number := f.number.toNat
  type := p.typeOf f
  target := targetOf f
  repeated := f.label = .repeated
  isMap := f.label = .repeated && p.isMapEntry (targetOf f)
  isExtension := true
  defaultValue := p.defaultOf f
  hasPresence := f.label ≠ .repeated
  packed := p.isPacked file f

/-- A field of a message in a file, as a field of the message type. -/
def ofField (p : Pool) (file : String) (f : Field) : Typed.Field :=
  { p.ofExtension file f with
    isExtension := false
    oneof := f.oneofIndex.map Int.toNat
    hasPresence := f.proto3Optional || f.oneofIndex.isSome ||
      (f.label ≠ .repeated && (Typed.isMessage (p.typeOf f) || !p.isProto3 file)) }

/-- The first field of a message type itself for which a test holds. -/
def ownField? (p : Pool) (type : String) (test : Field → Bool) : Option Typed.Field := do
  let d ← p.find? type
  let f ← (← d.message?).fields.find? test
  return p.ofField d.file f

/-- The first extension of a message type with a number. -/
def extensionOf? (p : Pool) (type : String) (number : Nat) : Option Typed.Field :=
  p.definitions.findSome? fun d => do
    let f ← d.extension?
    if f.extendee == some ("." ++ type) && f.number == (number : Int) then
      some (p.ofExtension d.file f)
    else none

/-- The number of a value of an enum of the pool. -/
def enumNumber? (p : Pool) (enum value : String) : Option Int := do
  let e ← (← p.find? enum).enum?
  return (← e.values.find? (·.name == value)).number

/-- The messages, extensions and enums of the pool. -/
def schema (p : Pool) : Typed.Schema where
  field? type number :=
    p.ownField? type (·.number == (number : Int)) <|> p.extensionOf? type number
  named? type name := p.ownField? type (·.name == name)
  enumNumber? := p.enumNumber?

/-- The schema that knows a standard type: that of the pool if it defines the type, else the
built-in one. -/
def schemaOf (p : Pool) (type : String) : Typed.Schema :=
  if (p.message? type).isSome then p.schema else standardSchema

end ProtoPhp.Pool
