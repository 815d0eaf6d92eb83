/-
The descriptor pool.

The pool holds the linked files of a run and what their full names stand for.

* `Pool.file?`, `Pool.find?` — what the pool knows by name.
-/
import ProtoPhp.Pool.Definition

namespace ProtoPhp

/-- The files of a run with the names they define. -/
structure Pool where
  /-- The linked files in the order in which they joined. -/
  files : List Descriptor.File := []
  definitions : List Definition := []
  deriving Inhabited

namespace Pool

/-- The first file with a name. -/
def file? (p : Pool) (name : String) : Option Descriptor.File := p.files.find? (·.name == name)

/-- The definition with a full name. -/
def find? (p : Pool) (name : String) : Option Definition := Definition.find? p.definitions name

/-- The message with a full name. -/
def message? (p : Pool) (name : String) : Option Descriptor.Message :=
  (p.find? name).bind Definition.message?

end Pool

end ProtoPhp
