/-
How the code of a class starts.

The code of an enum or of a message starts with its namespace and its name.  In a
message the static properties and the method for the descriptor follow, whose
text is always the same up to the statement that makes the descriptor.  So the
namespace, the name and the class that the descriptor is made for stand at known
places, before anything that fields or values can put into the code.

* `Php.enumHead`, `Php.messageHead` — the texts up to these places;
* `Php.source_enumCode`, `Php.source_messageCode` — the code of a class starts with them.
-/
import ProtoPhp.Proofs.Php.Written

namespace ProtoPhp.Php

/-- The line that opens a namespace; the global one has no name. -/
def namespaceLine (ns : Namespace) : String :=
  if ns.segments.isEmpty then "namespace \x7b"
  else "namespace " ++ "\\".intercalate ns.segments ++ " \x7b"

/-- The statement that makes the descriptor of a class. -/
def descriptorStatement (owner : Namespace) : String :=
  "$descriptor = new \\DrSlump\\Protobuf\\Descriptor('" ++
    ("\\" ++ "\\".intercalate owner.segments) ++ "');"

theorem descriptorStatement_eq (owner : Namespace) : descriptorStatement owner =
    "$descriptor = new \\DrSlump\\Protobuf\\Descriptor('" ++ absolute owner ++ "');" := rfl

/-- What stands in every message between its name and the statement that makes the descriptor. -/
def descriptorPrelude : String :=
  "\n    /** @var \\DrSlump\\Protobuf\\Descriptor */\n" ++
  "    protected static $__descriptor;\n" ++
  "    /** @var \\Closure[] */\n" ++
  "    protected static $__extensions = array();\n\n" ++
  "    public static function descriptor(\\DrSlump\\Protobuf\\Descriptor $descriptor = NULL)\n" ++
  "    \x7b\n" ++
  "      if (NULL !== $descriptor) \x7b\n" ++
  "        self::$__descriptor = $descriptor;\n" ++
  "        return self::$__descriptor;\n" ++
  "      \x7d\n\n" ++
  "      if (!self::$__descriptor) \x7b\n"

/-- The source of an enum up to its first value. -/
def enumHead (scope : Namespace) (name : String) : String :=
  namespaceLine scope ++ "\n\n" ++ "  class " ++ name ++ " \x7b" ++ "\n"

/-- The source of a message up to its first field. -/
def messageHead (scope : Namespace) (name : String) : String :=
  namespaceLine scope ++ "\n\n" ++
    "  class " ++ name ++ " extends \\DrSlump\\Protobuf\\Message \x7b" ++ "\n" ++ descriptorPrelude ++
    "        " ++ descriptorStatement (scope.child name) ++ "\n"

/-- The start of the method for the descriptor, up to the statement that makes it. -/
def descriptorOpening : Code :=
  lines ["public static function descriptor(\\DrSlump\\Protobuf\\Descriptor $descriptor = NULL)",
    "\x7b"] ++
  indent
    (block "if (NULL !== $descriptor) \x7b"
        (lines ["self::$__descriptor = $descriptor;", "return self::$__descriptor;"]) ++
      lines ["", "if (!self::$__descriptor) \x7b"])

theorem render_cons (l : Line) (code : Code) : render (l :: code) = l.render ++ render code := by
  simp [render]

theorem render_descriptorOpening :
    render (indent (indent (classHeader ++ descriptorOpening))) = descriptorPrelude := by
  decide +kernel

theorem Line.render_of_ne_empty {text : String} (depth : Nat) (h : text ≠ "") :
    (⟨depth, text⟩ : Line).render = String.join (List.replicate depth "  ") ++ text ++ "\n" := by
  rw [Line.render, if_neg]
  simpa using h

theorem render_namespaceLine (ns : Namespace) :
    (⟨0, namespaceLine ns⟩ : Line).render = namespaceLine ns ++ "\n" := by
  have hne : namespaceLine ns ≠ "" := by
    rw [namespaceLine]
    split <;> simp
  rw [Line.render_of_ne_empty 0 hne]
  exact congrArg (· ++ "\n") String.empty_append

theorem render_namespaceBlock (ns : Namespace) (body : Code) :
    render (namespaceBlock ns body) =
      namespaceLine ns ++ "\n\n" ++ render (indent body) ++ render (lines ["\x7d"]) := by
  have h : namespaceBlock ns body =
      ⟨0, namespaceLine ns⟩ :: ⟨1, ""⟩ :: (indent body ++ lines ["\x7d"]) := rfl
  rw [h, render_cons, render_namespaceLine, render_cons, render_append]
  apply String.ext
  simp [Line.render]

/-- The end of the method for the descriptor, behind the statements about the fields. -/
def descriptorClosing : Code :=
  deepen 2
    (block "foreach (self::$__extensions as $cb) \x7b" (lines ["$descriptor->addField($cb(), true);"]) ++
      lines ["", "self::$__descriptor = $descriptor;"]) ++
  deepen 1 (lines ["\x7d", "", "return self::$__descriptor;"]) ++
  lines ["\x7d"]

/-- What stands in a class behind the statement that makes its descriptor. -/
def members (owner : Namespace) (fields : List Field) : Code :=
  ⟨2, ""⟩ :: (deepen 2 (fields.flatMap addFieldCode) ++ descriptorClosing ++ blank ++
    fields.flatMap Field.property ++ blank ++
    fields.flatMap fun f => (f.accessors owner).flatMap Method.code)

/-- The statement that makes the descriptor splits the body of a class. -/
theorem classBody_eq (owner : Namespace) (fields : List Field) :
    classHeader ++ descriptorCode owner fields ++ blank ++ fields.flatMap Field.property ++ blank ++
        (fields.flatMap fun f => (f.accessors owner).flatMap Method.code) =
      classHeader ++ descriptorOpening ++ ⟨2, descriptorStatement owner⟩ :: members owner fields := by
  have hstatements : deepen 2 (fields.flatMap addFieldCode) =
      indent (indent (fields.flatMap addFieldCode)) := (deepen_deepen 1 1 _).symm
  rw [members, hstatements, descriptorCode]
  simp only [block, enclose, indent_append, List.append_assoc]
  rfl

theorem render_classLine (name tail : String) :
    render (indent (lines ["class " ++ name ++ tail])) = "  class " ++ name ++ tail ++ "\n" := by
  apply String.ext
  simp [lines, indent, render, Line.render]

theorem render_descriptorStatement (owner : Namespace) :
    (⟨4, descriptorStatement owner⟩ : Line).render =
      "        " ++ descriptorStatement owner ++ "\n" := by
  have hne : descriptorStatement owner ≠ "" := by
    unfold descriptorStatement
    simp
  rw [Line.render_of_ne_empty 4 hne]
  rfl

/-- The source of an enum starts with its namespace and its name. -/
theorem source_enumCode (ns : Namespace) (e : Descriptor.Enum) :
    ∃ rest, render (enumCode ns e) = enumHead ns e.name ++ rest := by
  rw [enumCode, render_namespaceBlock, block, enclose, indent_append, indent_append, render_append,
    render_append, render_classLine, enumHead]
  simp only [String.append_assoc]
  exact ⟨_, rfl⟩

theorem render_messageCode (ns : Namespace) (name : String) (fields : List Field) :
    render (messageCode ns name fields) =
      messageHead ns name ++ render (deepen 2 (members (ns.child name) fields)) ++ "  \x7d\n\x7d\n" := by
  have hmembers : indent (indent (⟨2, descriptorStatement (ns.child name)⟩ ::
        members (ns.child name) fields)) =
      ⟨4, descriptorStatement (ns.child name)⟩ :: deepen 2 (members (ns.child name) fields) :=
    congrArg (_ :: ·) (deepen_deepen 1 1 _)
  have hend : render (indent (lines ["\x7d"])) ++ render (lines ["\x7d"]) = "  \x7d\n\x7d\n" := by
    decide +kernel
  rw [messageCode, classBody_eq, render_namespaceBlock, block, enclose, indent_append, indent_append,
    render_append, render_append, render_classLine, indent_append, indent_append, render_append,
    render_descriptorOpening, hmembers, render_cons, render_descriptorStatement, messageHead, ← hend]
  simp only [String.append_assoc]

/-- The source of a message starts with its namespace and its name, and its descriptor is made for the
class of this name. -/
theorem source_messageCode (ns : Namespace) (name : String) (fields : List Field) :
    ∃ rest, render (messageCode ns name fields) = messageHead ns name ++ rest :=
  ⟨_, (render_messageCode ns name fields).trans String.append_assoc⟩

end ProtoPhp.Php
