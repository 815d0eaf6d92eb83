/-
Source units: the printed types of a file.

A file is printed as a list of units: its enums, then its messages, each after
the enums and messages inside it, then one unit that registers all extensions
of the file.  Types inside a message live in a namespace named after it.

* `SourceUnit.ofMessage` — the units of a message and of what is inside it;
* `SourceUnit.ofExtensions` — the unit of the registrations;
* `SourceUnit.ofFile` — all units of a file.
-/
import ProtoPhp.Grouping
import ProtoPhp.Php.Class
import ProtoPhp.Resolving

namespace ProtoPhp

/-- A printed type, or the printed registrations of a file. -/
structure SourceUnit where
  scope : Namespace
  name : String
  code : Php.Code
  deriving Repr, DecidableEq, Inhabited

/-- An extension and the namespace of the scope that declares it. -/
structure ScopedExtension where
  scope : Namespace
  field : Descriptor.Field
  deriving Repr, DecidableEq, Inhabited

namespace ScopedExtension

mutual

/-- The extensions declared inside a message; those of inner messages come first. -/
def ofMessage (ns : Namespace) : Descriptor.Message → List ScopedExtension
  | { name, messages, extensions, .. } =>
    ofMessages (ns.child name) messages ++ extensions.map (⟨ns.child name, ·⟩)

/-- The extensions declared inside a list of messages. -/
def ofMessages (ns : Namespace) : List Descriptor.Message → List ScopedExtension
  | [] => []
  | m :: ms => ofMessage ns m ++ ofMessages ns ms

end

/-- The extensions of a file; those of the file scope come last. -/
def ofFile (ns : Namespace) (file : Descriptor.File) : List ScopedExtension :=
  ofMessages ns file.messages ++ file.extensions.map (⟨ns, ·⟩)

end ScopedExtension

namespace SourceUnit

/-- The written form of a unit. -/
def source (u : SourceUnit) : String := Php.render u.code

/-- The path of a unit as a file, without suffix. -/
def path (u : SourceUnit) : String := (u.scope.child u.name).filePath

/-- The unit of an enum. -/
def ofEnum (ns : Namespace) (e : Descriptor.Enum) : SourceUnit := ⟨ns, e.name, Php.enumCode ns e⟩

mutual

/-- The units of a message: its enums, its inner messages, itself.  Its own references are resolved
before those of its inner messages. -/
def ofMessage (t : PackageTable) (ns : Namespace) :
    Descriptor.Message → Resolving (List SourceUnit)
  | { name, fields, messages, enums, .. } => do
    let fields ← fields.mapM (Resolving.field t)
    let inner ← ofMessages t (ns.child name) messages
    return enums.map (ofEnum (ns.child name)) ++ inner ++
      [⟨ns, name, Php.messageCode ns name fields⟩]

/-- The units of a list of messages. -/
def ofMessages (t : PackageTable) (ns : Namespace) :
    List Descriptor.Message → Resolving (List SourceUnit)
  | [] => return []
  | m :: ms => do
    let first ← ofMessage t ns m
    let rest ← ofMessages t ns ms
    return first ++ rest

end

/-- The registrations of the extensions of one message, which is resolved first. -/
def registrations (t : PackageTable) (extendee : String) (extensions : List ScopedExtension) :
    Resolving Php.Code := do
  let extended ← Resolving.reference t extendee
  let calls ← extensions.mapM fun e =>
    Php.registrationCode extended e.scope <$> Resolving.field t e.field
  return calls.flatten

/-- The unit that registers extensions, grouped by the message that they extend. -/
def ofExtensions (t : PackageTable) (stem : String) (extensions : List ScopedExtension) :
    Resolving (List SourceUnit) :=
  match Grouping.grouped (·.field.extendee.getD "") extensions with
  | [] => return []
  | groups => do
    let calls ← groups.mapM fun g => registrations t g.1 g.2
    return [⟨.root, stem ++ "-extensions", Php.registrationsCode calls⟩]

/-- The units of a file whose types live in `ns`. -/
def ofFile (t : PackageTable) (ns : Namespace) (stem : String) (file : Descriptor.File) :
    Resolving (List SourceUnit) := do
  let types ← ofMessages t ns file.messages
  let registrations ← ofExtensions t stem (ScopedExtension.ofFile ns file)
  return file.enums.map (ofEnum ns) ++ types ++ registrations

end SourceUnit

end ProtoPhp
