/-
Resolving the references of a file.

While the classes of a file are put together, each reference is looked up in
the package table.  The first reference that is not fully qualified ends the
run; warnings are kept, each only once, in the order in which they first arise.

* `Resolving.reference` — looks one reference up;
* `Resolving.field` — resolves the type of a field.
-/
import ProtoPhp.Namespace.Table
import ProtoPhp.Php.Field

namespace ProtoPhp

/-- A computation that resolves references, with the warnings so far. -/
abbrev Resolving := StateT (List Warning) (Except Error)

namespace Resolving

/-- Adds a warning unless it is already there. -/
def note (log : List Warning) (w : Warning) : List Warning :=
  if w ∈ log then log else log ++ [w]

/-- The class that a reference names. -/
def reference (t : PackageTable) (name : String) : Resolving Namespace := fun log =>
  match t.resolve name with
  | .ok r => .ok (r.target, r.warnings.foldl note log)
  | .error e => .error e

/-- The PHP type of a field.  A group may come without a reference. -/
def valueType (t : PackageTable) (f : Descriptor.Field) : Resolving Php.ValueType :=
  match f.type with
  | .double | .float => pure .float
  | .int64 | .uint64 | .int32 | .fixed64 | .fixed32 | .uint32 | .sfixed32 | .sfixed64 | .sint32
  | .sint64 => pure .int
  | .bool => pure .bool
  | .string => pure .string
  | .bytes => pure .bytes
  | .message => .message <$> reference t (f.typeName.getD "")
  | .enum => .enum <$> reference t (f.typeName.getD "")
  | .group =>
    match f.typeName with
    | some name => (fun target => .group (some target)) <$> reference t name
    | none => pure (.group none)

/-- A field with its type reference resolved. -/
def field (t : PackageTable) (f : Descriptor.Field) : Resolving Php.Field :=
  (fun type => ⟨f, type⟩) <$> valueType t f

end Resolving

end ProtoPhp
