/-
The standard schema of descriptors and options.

Schema files, and the options inside them, travel as messages of standard types.
One table lists the fields of those types.  It is read in two ways: as shapes,
by which files are decoded, and as a schema of typed messages, by which options
are set.

* `Descriptor.standardFields` — the table;
* `Descriptor.standardShapes`, `Descriptor.standardSchema` — its two readings.
-/
import ProtoPhp.Typed.Field
import ProtoPhp.Wire.Value

namespace ProtoPhp.Descriptor

open Wire

/-- A single field of a standard type: its number, its name, its type and what that type names. -/
def single (number : Nat) (name : String) (type : FieldType) (target : String := "") :
    Typed.Field :=
  { name, number, type, target }

/-- A repeated field of a standard type. -/
def many (number : Nat) (name : String) (type : FieldType) (target : String := "") :
    Typed.Field :=
  { name, number, type, target, repeated := true }

/-- The number of the field of every option message that holds options nobody has set yet. -/
def uninterpretedNumber : Nat := 999

/-- The field of every option message that holds options nobody has set yet. -/
def uninterpreted : Typed.Field :=
  many uninterpretedNumber "uninterpreted_option" .message "google.protobuf.UninterpretedOption"

/-- The fields of the standard descriptor types. -/
def standardFields : List (String × List Typed.Field) := [
  ("google.protobuf.FileDescriptorProto", [
    single 1 "name" .string,
    single 2 "package" .string,
    many 3 "dependency" .string,
    many 4 "message_type" .message "google.protobuf.DescriptorProto",
    many 5 "enum_type" .message "google.protobuf.EnumDescriptorProto",
    many 6 "service" .message "google.protobuf.ServiceDescriptorProto",
    many 7 "extension" .message "google.protobuf.FieldDescriptorProto",
    single 8 "options" .message "google.protobuf.FileOptions",
    single 9 "source_code_info" .message "google.protobuf.SourceCodeInfo",
    many 10 "public_dependency" .int32,
    many 11 "weak_dependency" .int32,
    single 12 "syntax" .string]),
  ("google.protobuf.DescriptorProto", [
    single 1 "name" .string,
    many 2 "field" .message "google.protobuf.FieldDescriptorProto",
    many 3 "nested_type" .message "google.protobuf.DescriptorProto",
    many 4 "enum_type" .message "google.protobuf.EnumDescriptorProto",
    many 5 "extension_range" .message "google.protobuf.DescriptorProto.ExtensionRange",
    many 6 "extension" .message "google.protobuf.FieldDescriptorProto",
    single 7 "options" .message "google.protobuf.MessageOptions",
    many 8 "oneof_decl" .message "google.protobuf.OneofDescriptorProto",
    many 9 "reserved_range" .message "google.protobuf.DescriptorProto.ReservedRange",
    many 10 "reserved_name" .string]),
  ("google.protobuf.DescriptorProto.ExtensionRange", [
    single 1 "start" .int32,
    single 2 "end" .int32,
    single 3 "options" .message "google.protobuf.ExtensionRangeOptions"]),
  ("google.protobuf.DescriptorProto.ReservedRange", [
    single 1 "start" .int32,
    single 2 "end" .int32]),
  ("google.protobuf.FieldDescriptorProto", [
    single 1 "name" .string,
    single 2 "extendee" .string,
    single 3 "number" .int32,
    single 4 "label" .enum "google.protobuf.FieldDescriptorProto.Label",
    single 5 "type" .enum "google.protobuf.FieldDescriptorProto.Type",
    single 6 "type_name" .string,
    single 7 "default_value" .string,
    single 8 "options" .message "google.protobuf.FieldOptions",
    single 9 "oneof_index" .int32,
    single 10 "json_name" .string,
    single 17 "proto3_optional" .bool]),
  ("google.protobuf.OneofDescriptorProto", [
    single 1 "name" .string,
    single 2 "options" .message "google.protobuf.OneofOptions"]),
  ("google.protobuf.EnumDescriptorProto", [
    single 1 "name" .string,
    many 2 "value" .message "google.protobuf.EnumValueDescriptorProto",
    single 3 "options" .message "google.protobuf.EnumOptions",
    many 4 "reserved_range" .message "google.protobuf.EnumDescriptorProto.EnumReservedRange",
    many 5 "reserved_name" .string]),
  ("google.protobuf.EnumDescriptorProto.EnumReservedRange", [
    single 1 "start" .int32,
    single 2 "end" .int32]),
  ("google.protobuf.EnumValueDescriptorProto", [
    single 1 "name" .string,
    single 2 "number" .int32,
    single 3 "options" .message "google.protobuf.EnumValueOptions"]),
  ("google.protobuf.ServiceDescriptorProto", [
    single 1 "name" .string,
    many 2 "method" .message "google.protobuf.MethodDescriptorProto",
    single 3 "options" .message "google.protobuf.ServiceOptions"]),
  ("google.protobuf.MethodDescriptorProto", [
    single 1 "name" .string,
    single 2 "input_type" .string,
    single 3 "output_type" .string,
    single 4 "options" .message "google.protobuf.MethodOptions",
    single 5 "client_streaming" .bool,
    single 6 "server_streaming" .bool]),
  ("google.protobuf.FileOptions", [
    single 1 "java_package" .string,
    single 8 "java_outer_classname" .string,
    single 9 "optimize_for" .enum "google.protobuf.FileOptions.OptimizeMode",
    single 10 "java_multiple_files" .bool,
    single 11 "go_package" .string,
    single 16 "cc_generic_services" .bool,
    single 17 "java_generic_services" .bool,
    single 18 "py_generic_services" .bool,
    single 20 "java_generate_equals_and_hash" .bool,
    single 23 "deprecated" .bool,
    single 27 "java_string_check_utf8" .bool,
    single 31 "cc_enable_arenas" .bool,
    single 36 "objc_class_prefix" .string,
    single 37 "csharp_namespace" .string,
    single 39 "swift_prefix" .string,
    single 40 "php_class_prefix" .string,
    single 41 "php_namespace" .string,
    single 42 "php_generic_services" .bool,
    single 44 "php_metadata_namespace" .string,
    single 45 "ruby_package" .string,
    uninterpreted]),
  ("google.protobuf.MessageOptions", [
    single 1 "message_set_wire_format" .bool,
    single 2 "no_standard_descriptor_accessor" .bool,
    single 3 "deprecated" .bool,
    single 7 "map_entry" .bool,
    uninterpreted]),
  ("google.protobuf.FieldOptions", [
    single 1 "ctype" .enum "google.protobuf.FieldOptions.CType",
    single 2 "packed" .bool,
    single 3 "deprecated" .bool,
    single 5 "lazy" .bool,
    single 6 "jstype" .enum "google.protobuf.FieldOptions.JSType",
    single 10 "weak" .bool,
    uninterpreted]),
  ("google.protobuf.OneofOptions", [uninterpreted]),
  ("google.protobuf.EnumOptions", [
    single 2 "allow_alias" .bool,
    single 3 "deprecated" .bool,
    uninterpreted]),
  ("google.protobuf.EnumValueOptions", [
    single 1 "deprecated" .bool,
    uninterpreted]),
  ("google.protobuf.ServiceOptions", [
    single 33 "deprecated" .bool,
    uninterpreted]),
  ("google.protobuf.MethodOptions", [
    single 33 "deprecated" .bool,
    single 34 "idempotency_level" .enum "google.protobuf.MethodOptions.IdempotencyLevel",
    uninterpreted]),
  ("google.protobuf.ExtensionRangeOptions", [uninterpreted]),
  ("google.protobuf.UninterpretedOption", [
    many 2 "name" .message "google.protobuf.UninterpretedOption.NamePart",
    single 3 "identifier_value" .string,
    single 4 "positive_int_value" .uint64,
    single 5 "negative_int_value" .int64,
    single 6 "double_value" .double,
    single 7 "string_value" .bytes,
    single 8 "aggregate_value" .string]),
  ("google.protobuf.UninterpretedOption.NamePart", [
    single 1 "name_part" .string,
    single 2 "is_extension" .bool]),
  ("google.protobuf.SourceCodeInfo", [
    many 1 "location" .message "google.protobuf.SourceCodeInfo.Location"]),
  ("google.protobuf.SourceCodeInfo.Location", [
    many 1 "path" .int32,
    many 2 "span" .int32,
    single 3 "leading_comments" .string,
    single 4 "trailing_comments" .string,
    many 6 "leading_detached_comments" .string])]

/-- Fields that are known when options are set, and unknown when a file is decoded. -/
def laterFields : List (String × List Typed.Field) := [
  ("google.protobuf.FieldOptions", [single 15 "unverified_lazy" .bool])]

/-- The values of the enums in options, with their numbers. -/
def standardEnums : List (String × List (String × Int)) := [
  ("google.protobuf.FileOptions.OptimizeMode",
    [("SPEED", 1), ("CODE_SIZE", 2), ("LITE_RUNTIME", 3)]),
  ("google.protobuf.FieldOptions.CType", [("STRING", 0), ("CORD", 1), ("STRING_PIECE", 2)]),
  ("google.protobuf.FieldOptions.JSType", [("JS_NORMAL", 0), ("JS_STRING", 1), ("JS_NUMBER", 2)]),
  ("google.protobuf.MethodOptions.IdempotencyLevel",
    [("IDEMPOTENCY_UNKNOWN", 0), ("NO_SIDE_EFFECTS", 1), ("IDEMPOTENT", 2)])]

/-- The types of option messages. -/
def optionTypes : List String :=
  ["google.protobuf.FileOptions", "google.protobuf.MessageOptions", "google.protobuf.FieldOptions",
    "google.protobuf.OneofOptions", "google.protobuf.EnumOptions",
    "google.protobuf.EnumValueOptions", "google.protobuf.ServiceOptions",
    "google.protobuf.MethodOptions", "google.protobuf.ExtensionRangeOptions"]

/-- What the wire holds for a field of a standard type. -/
def kindOf (f : Typed.Field) : FieldKind :=
  match f.type with
  | .string => .text
  | .bytes => .bytes
  | .bool => .bool
  | .double => .fixed64
  | .message => if optionTypes.contains f.target then .options f.target else .message f.target
  | _ => .varint

/-- The fields of a type in a table. -/
def fieldsIn (table : List (String × List Typed.Field)) (type : String) : List Typed.Field :=
  (table.lookup type).getD []

/-- The standard types as message shapes. -/
def standardShapes : Shapes := fun type number =>
  ((fieldsIn standardFields type).find? (·.number == number)).map fun f =>
    { name := f.name, kind := kindOf f, repeated := f.repeated }

/-- The standard types as typed messages. -/
def standardSchema : Typed.Schema :=
  let fields (type : String) := fieldsIn standardFields type ++ fieldsIn laterFields type
  { field? := fun type number => (fields type).find? (·.number == number)
    named? := fun type name => (fields type).find? (·.name == name)
    enumNumber? := fun enum value => (standardEnums.lookup enum).bind (·.lookup value) }

/-- The known fields of an option message. -/
def decodeOptions (type : String) (bytes : Bytes) : Fields :=
  (decode standardShapes maxDepth type bytes).toOption.getD []

/-- The standard option for the namespace of generated PHP classes, in the options of a file. -/
def phpNamespaceIn (options : Bytes) : Option String :=
  (decodeOptions "google.protobuf.FileOptions" options).text? 41

end ProtoPhp.Descriptor
