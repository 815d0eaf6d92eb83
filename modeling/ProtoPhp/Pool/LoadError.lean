/-
Why a file cannot join the descriptor pool.

Each constructor of `LoadFault` is one rule that a file can break, with the
names and numbers that its text needs.  `LoadError` adds the file, which the
detailed text shows for every fault that has a place in that file.
-/
namespace ProtoPhp

/-- A rule of the descriptor pool that a file breaks. -/
inductive LoadFault where
  /-- The bytes are not an encoded file descriptor, or its options are badly encoded. -/
  | undecodable
  /-- A full name is defined a second time; `earlier` is the other file, if it is another one. -/
  | duplicateName (name : String) (earlier : Option String)
  | emptyEnum
  /-- An enum of a proto3 file starts with a value other than zero. -/
  | nonzeroFirstValue
  /-- Two fields of a proto3 message differ only in case and underscores. -/
  | camelCaseConflict (first second : String)
  | missingImport (file : String)
  /-- A public or weak import points behind the list of imports. -/
  | invalidImportIndex
  | fieldNumberOutOfRange (number : Int)
  /-- The number is one of those kept for implementations. -/
  | fieldNumberKept (number : Int)
  /-- The number lies in a reserved range of the message, given by its first and last number. -/
  | fieldNumberReserved (number first last : Int)
  /-- The number lies in an extension range of the message, given by its first and last number. -/
  | fieldNumberForExtensions (number first last : Int)
  | fieldNumberUsed (number : Int)
  /-- The extended message has no extension range around the number. -/
  | notAnExtensionNumber (message : String) (number : Int)
  /-- No visible definition has the name; `hidden` is one in a file that is not imported. -/
  | undefinedName (name : String) (hidden : Option (String × String)) (file : String)
  | notAMessageOrEnum (name : String)
  | notAMessage (name : String)
  /-- A required part of a descriptor is absent, given by its path of field numbers and indices. -/
  | missingRequired (path : List Nat)
  | invalidDefault (value type : String)
  | jsonNameUsed (name : String)
  | invalidOneofIndex
  | enumNumberUsed (number : Int)
  | enumNumberReserved (number first last : Int)
  | notAnExtension (name : String)
  /-- An option extends another type than that of the message in which it is set. -/
  | foreignExtension (name expected actual : String)
  | undefinedOption (path : String)
  | optionAlreadySet (path : String)
  /-- A part of a path that is not the last one holds no single message. -/
  | optionNotAMessage (path type : String)
  | optionValueMismatch (path type value : String)
  deriving Repr, DecidableEq, Inhabited

namespace LoadFault

/-- The text of a fault. -/
def message : LoadFault → String
  | undecodable => "failed to decode file descriptor set"
  | duplicateName name none => "name '" ++ name ++ "' is defined twice"
  | duplicateName name (some file) =>
    "name '" ++ name ++ "' is already defined in file '" ++ file ++ "'"
  | emptyEnum => "enums must have at least one value"
  | nonzeroFirstValue => "the first value for proto3 enums must be 0"
  | camelCaseConflict first second =>
    "camel-case name of field '" ++ first ++ "' conflicts with field '" ++ second ++ "'"
  | missingImport file => "imported file '" ++ file ++ "' has not been added"
  | invalidImportIndex => "invalid import index"
  | fieldNumberOutOfRange n | fieldNumberKept n => "invalid field number '" ++ toString n ++ "'"
  | fieldNumberReserved n first last =>
    "field number '" ++ toString n ++ "' conflicts with reserved range '" ++ toString first ++
      " to " ++ toString last ++ "'"
  | fieldNumberForExtensions n first last =>
    "field number '" ++ toString n ++ "' conflicts with extension range '" ++ toString first ++
      " to " ++ toString last ++ "'"
  | fieldNumberUsed n => "field number '" ++ toString n ++ "' is already used"
  | notAnExtensionNumber message n =>
    "message '" ++ message ++ "' does not define '" ++ toString n ++ "' as an extension number"
  | undefinedName name _ _ => "name '" ++ name ++ "' is not defined"
  | notAMessageOrEnum name => "'" ++ name ++ "' is not a message or enum type"
  | notAMessage name => "'" ++ name ++ "' is not a message type"
  | missingRequired path =>
    "missing required field at [" ++ ", ".intercalate (path.map toString) ++ "]"
  | invalidDefault value type =>
    "invalid default value '" ++ value ++ "' for type '" ++ type ++ "'"
  | jsonNameUsed name => "a field with JSON name '" ++ name ++ "' is already defined"
  | invalidOneofIndex => "invalid oneof index"
  | enumNumberUsed n => "enum number '" ++ toString n ++ "' has already been used"
  | enumNumberReserved n first last =>
    "enum number '" ++ toString n ++ "' conflicts with reserved range '" ++ toString first ++
      " to " ++ toString last ++ "'"
  | notAnExtension name => "'" ++ name ++ "' is not an extension"
  | foreignExtension name expected actual =>
    "expected an extension to type '" ++ expected ++ "', but '" ++ name ++ "' extends '" ++
      actual ++ "'"
  | undefinedOption path => "option field '" ++ path ++ "' is not defined"
  | optionAlreadySet path => "option field '" ++ path ++ "' has already been set"
  | optionNotAMessage path type =>
    "cannot set field for option '" ++ path ++ "' value of type '" ++ type ++ "'"
  | optionValueMismatch path type value =>
    "expected a value of type '" ++ type ++ "' for option '" ++ path ++ "', but found '" ++ value ++
      "'"

/-- Advice on how to mend a fault, where there is any. -/
def help : LoadFault → Option String
  | fieldNumberOutOfRange _ => some "field numbers must be between 1 and 536870911"
  | fieldNumberKept _ => some "field numbers 19000 to 19999 are reserved"
  | undefinedName _ (some (name, home)) file =>
    some ("'" ++ name ++ "' is defined in '" ++ home ++ "', which is not imported by '" ++ file ++
      "'")
  | enumNumberUsed _ => some "set the 'allow_alias' option allow re-using enum numbers"
  | _ => none

/-- A fault without a place in its file: the detailed text does not name the file. -/
def isUnplaced : LoadFault → Bool
  | undecodable | invalidImportIndex | invalidOneofIndex => true
  | _ => false

end LoadFault

/-- A fault and the file in which it was found. -/
structure LoadError where
  file : String
  fault : LoadFault
  deriving Repr, DecidableEq, Inhabited

/-- The detailed text of an error: the file in front of the message, if the fault has a place. -/
def LoadError.detail (e : LoadError) : String :=
  if e.fault.isUnplaced then e.fault.message else e.file ++ ": " ++ e.fault.message

end ProtoPhp
