/-
Encoded schema descriptors.

A schema file travels as a message of a standard type.  It is decoded with the
standard shapes and then read off the decoded fields.

* `Descriptor.File.decode?` — the schema file that a byte string encodes.
-/
import ProtoPhp.Descriptor.WrittenOption

namespace ProtoPhp.Descriptor

open Wire

/-- The option message in a field; what is written in pieces counts as one message. -/
def optionsOf (fields : Fields) (number : Nat) : EncodedOptions :=
  (fields.byteStrings number).flatten

/-- The field in decoded fields. -/
def Field.ofFields (fields : Fields) : Field where
  name := (fields.text? 1).getD ""
  number := (fields.int? 3).getD 0
  label := .ofCode ((fields.int? 4).getD 1)
  type := .ofCode ((fields.int? 5).getD 1)
  typeName := fields.text? 6
  extendee := fields.text? 2
  defaultValue := fields.text? 7
  oneofIndex := fields.int? 9
  jsonName := fields.text? 10
  proto3Optional := fields.flag 17
  options := if (fields.byteStrings 8).isEmpty then none else some (optionsOf fields 8)

/-- The number range in decoded fields. -/
def NumberRange.ofFields (fields : Fields) : NumberRange where
  start := (fields.int? 1).getD 0
  stop := (fields.int? 2).getD 0
  options := optionsOf fields 3

/-- The enum constant in decoded fields. -/
def EnumValue.ofFields (fields : Fields) : EnumValue where
  name := (fields.text? 1).getD ""
  number := (fields.int? 2).getD 0
  options := optionsOf fields 3

/-- The options of an enum let its values share numbers, be that set or still as written. -/
def allowsAlias (options : EncodedOptions) : Bool :=
  (decodeOptions "google.protobuf.EnumOptions" options).flag 2 ||
    (writtenOptions "google.protobuf.EnumOptions" options).any fun o =>
      o.path == [⟨"allow_alias", false⟩] && o.word == some "true"

/-- The enum in decoded fields. -/
def Enum.ofFields (fields : Fields) : Enum where
  name := (fields.text? 1).getD ""
  values := (fields.messages 2).map EnumValue.ofFields
  reserved := (fields.messages 4).map NumberRange.ofFields
  allowAlias := allowsAlias (optionsOf fields 3)
  options := optionsOf fields 3

/-- The oneof in decoded fields. -/
def Oneof.ofFields (fields : Fields) : Oneof where
  name := (fields.text? 1).getD ""
  options := optionsOf fields 2

/-- The message in decoded fields, with messages at most `depth` deep inside. -/
def Message.ofFields : (depth : Nat) → Fields → Message
  | depth, fields =>
    { name := (fields.text? 1).getD ""
      fields := (fields.messages 2).map Field.ofFields
      messages :=
        match depth with
        | 0 => []
        | depth + 1 => (fields.messages 3).map (Message.ofFields depth)
      enums := (fields.messages 4).map Enum.ofFields
      extensions := (fields.messages 6).map Field.ofFields
      oneofs := (fields.messages 8).map Oneof.ofFields
      extensionRanges := (fields.messages 5).map NumberRange.ofFields
      reserved := (fields.messages 9).map NumberRange.ofFields
      options := optionsOf fields 7 }

/-- The method in decoded fields. -/
def Method.ofFields (fields : Fields) : Method where
  name := (fields.text? 1).getD ""
  input := (fields.text? 2).getD ""
  output := (fields.text? 3).getD ""
  options := optionsOf fields 4

/-- The service in decoded fields. -/
def Service.ofFields (fields : Fields) : Service where
  name := (fields.text? 1).getD ""
  methods := (fields.messages 2).map Method.ofFields
  options := optionsOf fields 3

/-- The schema file in decoded fields. -/
def File.ofFields (fields : Fields) : File where
  name := (fields.text? 1).getD ""
  package := (fields.text? 2).getD ""
  imports := fields.texts 3
  publicImports := fields.ints 10
  weakImports := fields.ints 11
  messages := (fields.messages 4).map (Message.ofFields maxDepth)
  enums := (fields.messages 5).map Enum.ofFields
  services := (fields.messages 6).map Service.ofFields
  extensions := (fields.messages 7).map Field.ofFields
  proto3 := fields.text? 12 = some "proto3"
  phpNamespace := phpNamespaceIn (optionsOf fields 8)
  options := optionsOf fields 8

/-- The schema file that a byte string encodes. -/
def File.decode? (bytes : Bytes) : Option File :=
  ((decode standardShapes maxDepth "google.protobuf.FileDescriptorProto" bytes).map
    File.ofFields).toOption

end ProtoPhp.Descriptor
