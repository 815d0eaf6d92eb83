/-
The PHP side of a field's type.

PHP knows fewer types than the schema language: every integer type is `int`,
both floating types are `float`.  What remains of a reference is the class it
was resolved to.

* `Php.ValueType.docType` — the type as doc comments name it;
* `Php.literal` — a default value as a PHP expression.
-/
import ProtoPhp.Namespace.Basic
import ProtoPhp.Php.Literal

namespace ProtoPhp.Php

/-- What kind of PHP value a field holds. -/
inductive ValueType where
  | float
  | int
  | bool
  | string
  | bytes
  | message (target : Namespace)
  | enum (target : Namespace)
  | group (target : Option Namespace)
  deriving Repr, DecidableEq, Inhabited

/-- The name of a class with the backslash that makes it absolute. -/
def absolute (n : Namespace) : String := "\\" ++ toString n

namespace ValueType

/-- The class that the type refers to. -/
def target? : ValueType → Option Namespace
  | message target | enum target => some target
  | group target => target
  | float | int | bool | string | bytes => none

/-- The type as doc comments name it. -/
def docType : ValueType → String
  | float => "float"
  | int => "int"
  | bool => "boolean"
  | string | bytes => "string"
  | message target => absolute target
  | enum target => "int - " ++ absolute target
  | group _ => "unknown"

/-- The parameter of a setter, with the class of a message in front. -/
def parameter : ValueType → String
  | message target => absolute target ++ " $value"
  | _ => "$value"

end ValueType

/-- The PHP spelling of a floating-point default; only the non-finite ones differ. -/
def floatLiteral (text : String) : String :=
  if text = "inf" then "INF"
  else if text = "-inf" then "-INF"
  else if text = "nan" then "NAN"
  else text

/-- The default value of a field as a PHP expression. -/
def literal (type : ValueType) (text : String) : String :=
  match type with
  | .bool => boolLiteral text
  | .string | .bytes => quote text
  | .enum target => absolute target ++ "::" ++ text
  | .float => floatLiteral text
  | .int | .message _ | .group _ => text

end ProtoPhp.Php
