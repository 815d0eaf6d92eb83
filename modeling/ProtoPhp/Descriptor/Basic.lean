/-
Schema descriptors.

A schema file declares messages, enums, services and extensions; messages nest.
Absent names and numbers read as empty and zero.  Where it matters whether a
text is absent or empty (a field's type name, default value and extended
message) the text is optional.  Option messages are kept as they are encoded,
since what they mean depends on the extensions that the run has loaded.

* `Descriptor.FieldType.ofCode`, `Descriptor.Label.ofCode` — codes outside the
  known ones read as the first type and the first label.
-/
namespace ProtoPhp.Descriptor

/-- The type of a field. -/
inductive FieldType where
  | double
  | float
  | int64
  | uint64
  | int32
  | fixed64
  | fixed32
  | bool
  | string
  | group
  | message
  | bytes
  | uint32
  | enum
  | sfixed32
  | sfixed64
  | sint32
  | sint64
  deriving Repr, DecidableEq, Inhabited

namespace FieldType

/-- The number of a type in descriptors. -/
def code : FieldType → Nat
  | double => 1
  | float => 2
  | int64 => 3
  | uint64 => 4
  | int32 => 5
  | fixed64 => 6
  | fixed32 => 7
  | bool => 8
  | string => 9
  | group => 10
  | message => 11
  | bytes => 12
  | uint32 => 13
  | enum => 14
  | sfixed32 => 15
  | sfixed64 => 16
  | sint32 => 17
  | sint64 => 18

/-- The types in the order of their codes. -/
def all : List FieldType :=
  [double, float, int64, uint64, int32, fixed64, fixed32, bool, string, group, message, bytes,
    uint32, enum, sfixed32, sfixed64, sint32, sint64]

/-- The type with a code; an unknown code reads as `double`. -/
def ofCode (n : Int) : FieldType :=
  (all.find? fun t => (t.code : Int) == n).getD double

/-- The keyword of a type in schemas. -/
def keyword : FieldType → String
  | double => "double"
  | float => "float"
  | int64 => "int64"
  | uint64 => "uint64"
  | int32 => "int32"
  | fixed64 => "fixed64"
  | fixed32 => "fixed32"
  | bool => "bool"
  | string => "string"
  | group => "group"
  | message => "message"
  | bytes => "bytes"
  | uint32 => "uint32"
  | enum => "enum"
  | sfixed32 => "sfixed32"
  | sfixed64 => "sfixed64"
  | sint32 => "sint32"
  | sint64 => "sint64"

end FieldType

/-- How often a field may occur. -/
inductive Label where
  | optional
  | required
  | repeated
  deriving Repr, DecidableEq, Inhabited

namespace Label

/-- The number of a label in descriptors. -/
def code : Label → Nat
  | optional => 1
  | required => 2
  | repeated => 3

/-- The label with a code; an unknown code reads as `optional`. -/
def ofCode (n : Int) : Label :=
  if n = 2 then required else if n = 3 then repeated else optional

/-- The keyword of a label in schemas. -/
def keyword : Label → String
  | optional => "optional"
  | required => "required"
  | repeated => "repeated"

end Label

/-- An encoded option message; absent options are an empty one. -/
abbrev EncodedOptions := List UInt8

/-- A field of a message, or an extension. -/
structure Field where
  name : String := ""
  number : Int := 0
  label : Label := .optional
  type : FieldType := .double
  /-- The message or enum that the field refers to, as written. -/
  typeName : Option String := none
  /-- The message that an extension extends, as written. -/
  extendee : Option String := none
  /-- The default value, as written. -/
  defaultValue : Option String := none
  oneofIndex : Option Int := none
  jsonName : Option String := none
  /-- Is marked as optional in a schema where fields are not marked otherwise. -/
  proto3Optional : Bool := false
  /-- The options, if there are any; empty ones count too. -/
  options : Option EncodedOptions := none
  deriving Repr, DecidableEq, Inhabited

/-- One constant of an enum. -/
structure EnumValue where
  name : String := ""
  number : Int := 0
  options : EncodedOptions := []
  deriving Repr, DecidableEq, Inhabited

/-- A range of numbers from `start` on.  Where it is used decides whether `stop` belongs to it. -/
structure NumberRange where
  start : Int := 0
  stop : Int := 0
  options : EncodedOptions := []
  deriving Repr, DecidableEq, Inhabited

/-- An enum. -/
structure Enum where
  name : String := ""
  values : List EnumValue := []
  /-- Reserved numbers, both ends included. -/
  reserved : List NumberRange := []
  allowAlias : Bool := false
  options : EncodedOptions := []
  deriving Repr, DecidableEq, Inhabited

/-- A group of fields of which at most one is set. -/
structure Oneof where
  name : String := ""
  options : EncodedOptions := []
  deriving Repr, DecidableEq, Inhabited

/-- A message with the declarations inside it. -/
structure Message where
  name : String := ""
  fields : List Field := []
  messages : List Message := []
  enums : List Enum := []
  extensions : List Field := []
  oneofs : List Oneof := []
  /-- Numbers left to extensions, the stop excluded. -/
  extensionRanges : List NumberRange := []
  /-- Reserved numbers, the stop excluded. -/
  reserved : List NumberRange := []
  options : EncodedOptions := []
  deriving Inhabited

/-- A remote procedure. -/
structure Method where
  name : String := ""
  input : String := ""
  output : String := ""
  options : EncodedOptions := []
  deriving Repr, DecidableEq, Inhabited

/-- A group of remote procedures. -/
structure Service where
  name : String := ""
  methods : List Method := []
  options : EncodedOptions := []
  deriving Repr, DecidableEq, Inhabited

/-- A schema file. -/
structure File where
  name : String := ""
  package : String := ""
  imports : List String := []
  /-- Indices into `imports`. -/
  publicImports : List Int := []
  /-- Indices into `imports`. -/
  weakImports : List Int := []
  messages : List Message := []
  enums : List Enum := []
  services : List Service := []
  extensions : List Field := []
  proto3 : Bool := false
  /-- The standard option for the namespace of generated PHP classes. -/
  phpNamespace : Option String := none
  options : EncodedOptions := []
  deriving Inhabited

end ProtoPhp.Descriptor
