/-
The names that a file defines.

Packages, messages, fields, oneofs, enums, their values, extensions, services
and methods share one space of full names.  The values of an enum stand beside
it, not inside it.

* `Definition.ofFile` — the definitions of a file, in the order in which they are checked;
* `Definition.addAll` — joins them to those of the pool, unless a name is taken.
-/
import ProtoPhp.Descriptor.Basic
import ProtoPhp.Pool.LoadError
import ProtoPhp.Text.Dotted

namespace ProtoPhp

/-- What a full name stands for. -/
inductive DefinitionKind where
  | package
  | message (m : Descriptor.Message)
  | enum (e : Descriptor.Enum)
  | extension (f : Descriptor.Field)
  /-- A field, oneof, enum value, service or method. -/
  | other
  deriving Inhabited

/-- A full name and what it stands for. -/
structure Definition where
  name : String
  /-- The file with the definition; for a package, the first file with it. -/
  file : String
  kind : DefinitionKind
  deriving Inhabited

namespace Definition

open Text

/-- Is a package. -/
def isPackage (d : Definition) : Bool :=
  match d.kind with
  | .package => true
  | _ => false

/-- The message that is defined, if it is one. -/
def message? (d : Definition) : Option Descriptor.Message :=
  match d.kind with
  | .message m => some m
  | _ => none

/-- The enum that is defined, if it is one. -/
def enum? (d : Definition) : Option Descriptor.Enum :=
  match d.kind with
  | .enum e => some e
  | _ => none

/-- The extension that is defined, if it is one. -/
def extension? (d : Definition) : Option Descriptor.Field :=
  match d.kind with
  | .extension f => some f
  | _ => none

/-- The definition of an enum, then those of its values beside it. -/
def ofEnum (file scope : String) (e : Descriptor.Enum) : List Definition :=
  ⟨qualify scope e.name, file, .enum e⟩ ::
    e.values.map fun v => ⟨qualify scope v.name, file, .other⟩

/-- The definition of an extension. -/
def ofExtension (file scope : String) (f : Descriptor.Field) : Definition :=
  ⟨qualify scope f.name, file, .extension f⟩

mutual

/-- The definition of a message, then those inside it. -/
def ofMessage (file scope : String) : Descriptor.Message → List Definition
  | m@{ name, fields, messages, enums, extensions, oneofs, .. } =>
    let inside := qualify scope name
    [⟨inside, file, .message m⟩] ++
      oneofs.map (fun o => ⟨qualify inside o.name, file, .other⟩) ++
      fields.map (fun f => ⟨qualify inside f.name, file, .other⟩) ++
      ofMessages file inside messages ++
      enums.flatMap (ofEnum file inside) ++
      extensions.map (ofExtension file inside)

/-- The definitions of a list of messages. -/
def ofMessages (file scope : String) : List Descriptor.Message → List Definition
  | [] => []
  | m :: ms => ofMessage file scope m ++ ofMessages file scope ms

end

/-- The definitions of a service and its methods. -/
def ofService (file scope : String) (s : Descriptor.Service) : List Definition :=
  let inside := qualify scope s.name
  ⟨inside, file, .other⟩ :: s.methods.map fun m => ⟨qualify inside m.name, file, .other⟩

/-- The packages that the package of a file names. -/
def ofPackage (file package : String) : List Definition :=
  if package.isEmpty then [] else (dottedHeads package).map (⟨·, file, .package⟩)

/-- The definitions of a file. -/
def ofFile (f : Descriptor.File) : List Definition :=
  ofPackage f.name f.package ++
    ofMessages f.name f.package f.messages ++
    f.enums.flatMap (ofEnum f.name f.package) ++
    f.services.flatMap (ofService f.name f.package) ++
    f.extensions.map (ofExtension f.name f.package)

/-- The definition with a full name. -/
def find? (definitions : List Definition) (name : String) : Option Definition :=
  definitions.find? (·.name == name)

/-- The form of a field name in which two fields of a proto3 message must differ. -/
def foldedName (name : String) : String :=
  String.ofList ((name.toList.filter (· != '_')).map Char.toLower)

/-- The first field whose name is folded like that of an earlier one, after that earlier one. -/
def foldedConflict? : (earlier fields : List Descriptor.Field) → Option (String × String)
  | _, [] => none
  | earlier, f :: fs =>
    match earlier.find? fun e => foldedName e.name == foldedName f.name with
    | some e => some (e.name, f.name)
    | none => foldedConflict? (earlier ++ [f]) fs

/-- The rule that a definition breaks by itself. -/
def fault? (proto3 : Bool) (d : Definition) : Option LoadFault :=
  match d.kind with
  | .message m =>
    if proto3 then
      (foldedConflict? [] m.fields).map fun c => .camelCaseConflict c.1 c.2
    else none
  | .enum e =>
    match e.values with
    | [] => some .emptyEnum
    | v :: _ => if proto3 ∧ v.number ≠ 0 then some .nonzeroFirstValue else none
  | _ => none

/-- Joins a definition to earlier ones.  A package may come again, any other name only once. -/
def add (proto3 : Bool) (definitions : List Definition) (d : Definition) :
    Except LoadFault (List Definition) :=
  match find? definitions d.name with
  | some earlier =>
    if d.isPackage && earlier.isPackage then .ok definitions
    else .error (.duplicateName d.name
      (if earlier.file = d.file then none else some earlier.file))
  | none =>
    match d.fault? proto3 with
    | some fault => .error fault
    | none => .ok (definitions ++ [d])

/-- Joins definitions to earlier ones, in order. -/
def addAll (proto3 : Bool) (definitions new : List Definition) :
    Except LoadFault (List Definition) :=
  new.foldlM (add proto3) definitions

end Definition

end ProtoPhp
