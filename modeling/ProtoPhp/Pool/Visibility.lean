/-
What a file of the pool can refer to.

A file sees its own definitions, those of the files it imports, and those of
the files that these import publicly.  Public imports are followed further only
from a file that is met again.  A name is looked up from the inside out: first
inside the definition that refers to it, then in each enclosing scope, at last
as it stands.  A leading dot asks for the name as it stands at once.

* `Visibility.candidates` — the full names that a written name may mean;
* `Visibility.lookup` — the first of them that is visible.
-/
import ProtoPhp.Pool.Definition

namespace ProtoPhp

/-- The definitions of the pool as one file sees them. -/
structure Visibility where
  /-- The file that looks. -/
  file : String
  /-- The files whose definitions it sees. -/
  files : List String
  definitions : List Definition

namespace Visibility

/-- The files that a file imports publicly, in the order of its imports. -/
def publicImports (f : Descriptor.File) : List String :=
  (f.imports.zipIdx.filter fun e => f.publicImports.contains (e.2 : Int)).map Prod.fst

/-- The files that a file of the pool, given by its name, imports publicly. -/
def publicImportsOf (pool : List Descriptor.File) (name : String) : List String :=
  ((pool.find? (·.name == name)).map publicImports).getD []

/-- The files that are seen once a public import is met: a new file joins them, and a file that is
among them brings in its own public imports.  At most `steps` imports are followed in a row. -/
def meet (pool : List Descriptor.File) : (steps : Nat) → List String → String → List String
  | 0, seen, _ => seen
  | steps + 1, seen, name =>
    if seen.contains name then (publicImportsOf pool name).foldl (meet pool steps) seen
    else name :: seen

/-- The files that are seen once an imported file and its public imports have joined them. -/
def reach (pool : List Descriptor.File) (seen : List String) (name : String) : List String :=
  (publicImportsOf pool name).foldl (meet pool pool.length) (name :: seen)

/-- What a file sees once its own definitions have joined those of the pool. -/
def ofFile (pool : List Descriptor.File) (definitions : List Definition) (f : Descriptor.File) :
    Visibility where
  file := f.name
  files := f.imports.foldl (reach pool) [f.name]
  definitions := definitions

/-- The full names that a name written in a scope may mean, the innermost first.  The empty head of
a scope counts too and puts a dot in front of the name. -/
def candidates (scope name : String) : List String :=
  match name.toList with
  | '.' :: rest => [String.ofList rest]
  | _ => (Text.dottedHeads scope).reverse.map (· ++ "." ++ name) ++ [name]

/-- The definition that a name written in a scope means. -/
def lookup (v : Visibility) (scope name : String) : Except LoadFault Definition :=
  let found := (candidates scope name).filterMap (Definition.find? v.definitions)
  match found.find? fun d => v.files.contains d.file with
  | some d => .ok d
  | none => .error (.undefinedName name (found.head?.map fun d => (d.name, d.file)) v.file)

end Visibility

end ProtoPhp
