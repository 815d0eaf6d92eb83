/-
The code of messages, enums and extension registrations.

A message becomes a class whose descriptor lists its fields; an enum becomes a
class of constants; the extensions of a file become calls that register them
with the classes they extend.

* `Php.messageCode`, `Php.enumCode`, `Php.registrationsCode` — the three kinds of code.
-/
import ProtoPhp.Php.Field

namespace ProtoPhp.Php

/-- Code inside a namespace, with a blank line at its start. -/
def namespaceBlock (ns : Namespace) (body : Code) : Code :=
  block (if ns.isRoot then "namespace \x7b" else "namespace " ++ toString ns ++ " \x7b")
    (blank ++ body)

/-- The class of constants of an enum. -/
def enumCode (ns : Namespace) (e : Descriptor.Enum) : Code :=
  namespaceBlock ns
    (block ("class " ++ e.name ++ " \x7b")
      (lines (e.values.map fun v => "const " ++ v.name ++ " = " ++ toString v.number ++ ";")))

/-- The statements that put a field into the descriptor at hand. -/
def addFieldCode (f : Field) : Code :=
  f.metadata f.name ++ lines ["$descriptor->addField($f);", ""]

/-- The static method that builds the descriptor of a class on first use. -/
def descriptorCode (owner : Namespace) (fields : List Field) : Code :=
  lines ["public static function descriptor(\\DrSlump\\Protobuf\\Descriptor $descriptor = NULL)"] ++
  block "\x7b"
    (block "if (NULL !== $descriptor) \x7b"
        (lines ["self::$__descriptor = $descriptor;", "return self::$__descriptor;"]) ++
      blank ++
      block "if (!self::$__descriptor) \x7b"
        (lines ["$descriptor = new \\DrSlump\\Protobuf\\Descriptor('" ++ absolute owner ++ "');",
            ""] ++
          fields.flatMap addFieldCode ++
          block "foreach (self::$__extensions as $cb) \x7b"
            (lines ["$descriptor->addField($cb(), true);"]) ++
          lines ["", "self::$__descriptor = $descriptor;"]) ++
      lines ["", "return self::$__descriptor;"])

/-- The static properties of a class, with a blank line on both sides. -/
def classHeader : Code :=
  lines ["", "/** @var \\DrSlump\\Protobuf\\Descriptor */", "protected static $__descriptor;",
    "/** @var \\Closure[] */", "protected static $__extensions = array();", ""]

/-- The class of a message. -/
def messageCode (ns : Namespace) (name : String) (fields : List Field) : Code :=
  namespaceBlock ns
    (block ("class " ++ name ++ " extends \\DrSlump\\Protobuf\\Message \x7b")
      (classHeader ++
        descriptorCode (ns.child name) fields ++
        blank ++
        fields.flatMap Field.property ++
        blank ++
        fields.flatMap fun f => (f.accessors (ns.child name)).flatMap Method.code))

/-- The call that registers an extension with the class it extends.  The name of the extension is
qualified with the scope that declares it. -/
def registrationCode (extended scope : Namespace) (f : Field) : Code :=
  enclose (absolute extended ++ "::extension(function()\x7b")
    (f.metadata (scope.child f.name).dotted ++ lines ["return $f;"])
    "\x7d);"

/-- The registrations of a file, in the global namespace. -/
def registrationsCode (registrations : List Code) : Code :=
  block "namespace \x7b" registrations.flatten

end ProtoPhp.Php
