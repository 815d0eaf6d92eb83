/-
The code of a field.

A field shows up three times in a generated class: in the descriptor as a
metadata object, as a public property, and as accessors.  The accessors find
the value by the number of the field, never by its name.

* `Php.Field.metadata` — the statements that build the metadata object;
* `Php.Field.property` — the property with its initial value;
* `Php.Field.accessors` — the methods, which depend on whether the field repeats.
-/
import ProtoPhp.Descriptor.Basic
import ProtoPhp.Php.Method
import ProtoPhp.Php.ValueType
import ProtoPhp.Text.PascalCase

namespace ProtoPhp.Php

/-- A field whose type reference is resolved. -/
structure Field where
  descriptor : Descriptor.Field
  type : ValueType
  deriving Repr, DecidableEq, Inhabited

namespace Field

/-- The name of the field as declared. -/
def name (f : Field) : String := f.descriptor.name

/-- The number of the field in decimal. -/
def tag (f : Field) : String := toString f.descriptor.number

/-- May hold several values. -/
def isRepeated (f : Field) : Bool := f.descriptor.label = .repeated

/-- The default value as a PHP expression, if the field has one. -/
def default? (f : Field) : Option String := f.descriptor.defaultValue.map (literal f.type)

/-- The type as the schema writes it. -/
def schemaType (f : Field) : String :=
  f.descriptor.typeName.getD f.descriptor.type.keyword

/-- The statements that build the metadata object of a field in `$f`.  An extension is registered
under another name than its own. -/
def metadata (f : Field) (name : String) : Code :=
  lines (
    ["// " ++ f.descriptor.label.keyword ++ " " ++ f.schemaType ++ " " ++ name ++ " = " ++ f.tag,
      "$f = new \\DrSlump\\Protobuf\\Field();",
      "$f->number    = " ++ f.tag ++ ";",
      "$f->name      = " ++ quote name ++ ";",
      "$f->type      = " ++ toString f.descriptor.type.code ++ ";",
      "$f->rule      = " ++ toString f.descriptor.label.code ++ ";"] ++
    (f.type.target?.map fun target => "$f->reference = '" ++ absolute target ++ "';").toList ++
    (f.default?.map fun value => "$f->default   = " ++ value ++ ";").toList)

/-- The public property that holds the value. -/
def property (f : Field) : Code :=
  if f.isRepeated then
    lines ["/** @var " ++ f.type.docType ++ "[] */", "public $" ++ f.name ++ " = array();", ""]
  else
    lines ["/** @var " ++ f.type.docType ++ " */",
      "public $" ++ f.name ++ " = " ++ f.default?.getD "null" ++ ";", ""]

/-- Tells whether the field has a value. -/
def hasMethod (f : Field) : Method where
  doc := { summary := "Check if <" ++ f.name ++ "> has a value", result := "boolean" }
  name := "has" ++ Text.pascalCase f.name
  call := "_has(" ++ f.tag ++ ")"

/-- Takes the value away. -/
def clearMethod (f : Field) (owner : Namespace) : Method where
  doc := { summary := "Clear <" ++ f.name ++ "> value", result := absolute owner }
  name := "clear" ++ Text.pascalCase f.name
  call := "_clear(" ++ f.tag ++ ")"

/-- Gives the value. -/
def getMethod (f : Field) : Method where
  doc := { summary := "Get <" ++ f.name ++ "> value", result := f.type.docType }
  name := "get" ++ Text.pascalCase f.name
  call := "_get(" ++ f.tag ++ ")"

/-- Sets the value. -/
def setMethod (f : Field) (owner : Namespace) : Method where
  doc :=
    { summary := "Set <" ++ f.name ++ "> value"
      parameters := [f.type.docType ++ " $value"]
      result := absolute owner }
  name := "set" ++ Text.pascalCase f.name
  parameters := f.type.parameter
  call := "_set(" ++ f.tag ++ ", $value)"

/-- Gives the value at an index. -/
def getAtMethod (f : Field) : Method where
  doc :=
    { summary := "Get <" ++ f.name ++ "> value"
      parameters := ["int $idx"]
      result := f.type.docType }
  name := "get" ++ Text.pascalCase f.name
  parameters := "$idx = NULL"
  call := "_get(" ++ f.tag ++ ", $idx)"

/-- Sets the value at an index. -/
def setAtMethod (f : Field) (owner : Namespace) : Method where
  doc :=
    { summary := "Set <" ++ f.name ++ "> value"
      parameters := [f.type.docType ++ " $value", "int $idx"]
      result := absolute owner }
  name := "set" ++ Text.pascalCase f.name
  parameters := f.type.parameter ++ ", $idx = NULL"
  call := "_set(" ++ f.tag ++ ", $value, $idx)"

/-- Gives all values. -/
def getListMethod (f : Field) : Method where
  doc :=
    { summary := "Get all elements of <" ++ f.name ++ ">"
      result := f.type.docType ++ "[]" }
  name := "get" ++ Text.pascalCase f.name ++ "List"
  call := "_get(" ++ f.tag ++ ")"

/-- Adds a value at the end. -/
def addMethod (f : Field) (owner : Namespace) : Method where
  doc :=
    { summary := "Add a new element to <" ++ f.name ++ ">"
      parameters := [f.type.docType ++ " $value"]
      result := absolute owner }
  name := "add" ++ Text.pascalCase f.name
  parameters := f.type.parameter
  call := "_add(" ++ f.tag ++ ", $value)"

/-- The accessors of a field in the class `owner`. -/
def accessors (f : Field) (owner : Namespace) : List Method :=
  if f.isRepeated then
    [f.hasMethod, f.clearMethod owner, f.getAtMethod, f.setAtMethod owner, f.getListMethod,
      f.addMethod owner]
  else
    [f.hasMethod, f.clearMethod owner, f.getMethod, f.setMethod owner]

end Field

end ProtoPhp.Php
