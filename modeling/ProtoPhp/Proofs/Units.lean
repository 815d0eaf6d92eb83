/-
The units of a schema file.

What is printed for a file depends on the references only through the classes
that they stand for.  So the units can be told without the log: one for each
declaration of the file, in order, and one for its extensions.

* `SourceUnit.follows_ofFile` — printing a file follows the references of the
  file and gives these units;
* `generateFile_eq` — generating a file fails at its first reference that is not
  fully qualified, or gives these units and the warnings about its references.
-/
import ProtoPhp.Generator
import ProtoPhp.Proofs.Declaration
import ProtoPhp.Proofs.Following

namespace ProtoPhp

namespace ScopedExtension

open Descriptor

mutual

theorem map_field_ofMessage (ns : Namespace) :
    ∀ m : Message, (ofMessage ns m).map (·.field) = m.allExtensions
  | { name, messages, extensions, .. } => by
    rw [ofMessage, Message.allExtensions, List.map_append, List.map_map,
      map_field_ofMessages (ns.child name) messages]
    exact congrArg _ (List.map_id extensions)

theorem map_field_ofMessages (ns : Namespace) :
    ∀ ms : List Message, (ofMessages ns ms).map (·.field) = extensionsOf ms
  | [] => rfl
  | m :: ms => by
    rw [ofMessages, extensionsOf, List.map_append, map_field_ofMessage ns m,
      map_field_ofMessages ns ms]

end

/-- The extensions of a file, apart from the scopes that declare them. -/
theorem map_field_ofFile (ns : Namespace) (file : File) :
    (ofFile ns file).map (·.field) = file.allExtensions := by
  rw [ofFile, File.allExtensions, List.map_append, List.map_map, map_field_ofMessages]
  exact congrArg _ (List.map_id file.extensions)

/-- The extensions of one message, with the scopes that declare them. -/
def extending (ns : Namespace) (file : File) (extendee : String) : List ScopedExtension :=
  (ofFile ns file).filter fun e => e.field.extendeeName == extendee

theorem map_field_extending (ns : Namespace) (file : File) (extendee : String) :
    (extending ns file extendee).map (·.field) = file.extensionsOn extendee := by
  rw [extending, File.extensionsOn, ← map_field_ofFile ns file, List.filter_map]
  rfl

/-- The extensions of a file, grouped by the messages that they extend. -/
theorem grouped_ofFile (ns : Namespace) (file : File) :
    Grouping.grouped (·.field.extendee.getD "") (ofFile ns file) =
      file.extendees.map fun extendee => (extendee, extending ns file extendee) := by
  rw [Grouping.grouped_eq, File.extendees, ← map_field_ofFile ns file, List.map_map]
  rfl

end ScopedExtension

namespace SourceUnit

open Descriptor Resolving

/-- The fully qualified name of the class of a unit. -/
def className (u : SourceUnit) : Namespace := u.scope.child u.name

/-- The code of a declared type in the namespace around it. -/
def codeOf (t : PackageTable) (scope : Namespace) : DeclaredType → Php.Code
  | .message m => Php.messageCode scope m.name (m.fields.map t.field)
  | .enum e => Php.enumCode scope e

/-- The unit of a declaration in a file whose types live in `ns`. -/
def ofDeclaration (t : PackageTable) (ns : Namespace) (d : Declaration) : SourceUnit where
  scope := ns.join ⟨d.scope⟩
  name := d.name
  code := codeOf t (ns.join ⟨d.scope⟩) d.type

/-- The calls that register the extensions of one message. -/
def registrationsOf (t : PackageTable) (ns : Namespace) (file : File) (extendee : String) :
    Php.Code :=
  (ScopedExtension.extending ns file extendee).flatMap fun e =>
    Php.registrationCode (t.target extendee) e.scope (t.field e.field)

/-- The unit that registers the extensions of a file, if there are any. -/
def ofRegistrations (t : PackageTable) (ns : Namespace) (stem : String) (file : File) :
    List SourceUnit :=
  if file.extendees = [] then []
  else
    [⟨.root, stem ++ "-extensions",
      Php.registrationsCode (file.extendees.map (registrationsOf t ns file))⟩]

/-- All units of a file whose types live in `ns`. -/
def resolved (t : PackageTable) (ns : Namespace) (stem : String) (file : File) :
    List SourceUnit :=
  (Declaration.ofFile file).map (ofDeclaration t ns) ++ ofRegistrations t ns stem file

theorem className_ofDeclaration (t : PackageTable) (ns : Namespace) (d : Declaration) :
    (ofDeclaration t ns d).className = ns.join ⟨d.path⟩ := by
  simp [className, ofDeclaration, Declaration.path, Namespace.child, Namespace.join]

theorem join_child (ns : Namespace) (scope : List String) (name : String) :
    (ns.join ⟨scope⟩).child name = ns.join ⟨scope ++ [name]⟩ := by
  simp [Namespace.child, Namespace.join]

theorem map_ofEnum (t : PackageTable) (ns : Namespace) (scope : List String) (enums : List Enum) :
    enums.map (ofEnum (ns.join ⟨scope⟩)) =
      (enums.map fun e => (⟨scope, .enum e⟩ : Declaration)).map (ofDeclaration t ns) := by
  rw [List.map_map]
  rfl

mutual

/-- Printing a message follows the references of all its fields and gives the units of all types that
it declares. -/
theorem follows_ofMessage (t : PackageTable) (ns : Namespace) (scope : List String) :
    ∀ m : Message, Follows t (ofMessage t (ns.join ⟨scope⟩) m)
      (m.allFields.filterMap Field.reference?)
      ((Declaration.ofMessage scope m).map (ofDeclaration t ns))
  | { name, fields, messages, enums, .. } => by
    rw [ofMessage, Message.allFields, List.filterMap_append, Declaration.ofMessage, List.map_append,
      List.map_append, ← map_ofEnum, join_child]
    -- The unit of the message comes last, but its own references are looked up first.
    refine (follows_fields t fields).bind ?_
    exact (follows_ofMessages t ns (scope ++ [name]) messages).bind_pure _

/-- Printing a list of messages follows the references of all their fields. -/
theorem follows_ofMessages (t : PackageTable) (ns : Namespace) (scope : List String) :
    ∀ ms : List Message, Follows t (ofMessages t (ns.join ⟨scope⟩) ms)
      ((fieldsOf ms).filterMap Field.reference?)
      ((Declaration.ofMessages scope ms).map (ofDeclaration t ns))
  | [] => Follows.pure []
  | m :: ms => by
    rw [ofMessages, fieldsOf, List.filterMap_append, Declaration.ofMessages, List.map_append]
    refine (follows_ofMessage t ns scope m).bind ?_
    exact (follows_ofMessages t ns scope ms).bind_pure _

end

/-- Printing the registrations of one message follows its name and the references of the
extensions. -/
theorem follows_registrations (t : PackageTable) (ns : Namespace) (file : File)
    (extendee : String) :
    Follows t (registrations t extendee (ScopedExtension.extending ns file extendee))
      (extendee :: (file.extensionsOn extendee).filterMap Field.reference?)
      (registrationsOf t ns file extendee) := by
  rw [registrations, registrationsOf, List.flatMap_def, ← List.singleton_append,
    ← ScopedExtension.map_field_extending ns file extendee, ← flatMap_reference?,
    List.flatMap_map]
  refine (follows_reference t extendee).bind ?_
  refine Follows.bind_pure ?_ List.flatten
  exact Follows.mapM (fun e : ScopedExtension => (follows_field t e.field).map _) _

/-- Printing the registrations of a file follows each extended message with the references of its
extensions. -/
theorem follows_ofExtensions (t : PackageTable) (ns : Namespace) (stem : String) (file : File) :
    Follows t (ofExtensions t stem (ScopedExtension.ofFile ns file))
      (file.extendees.flatMap fun extendee =>
        extendee :: (file.extensionsOn extendee).filterMap Field.reference?)
      (ofRegistrations t ns stem file) := by
  have hcalls := Follows.mapM (follows_registrations t ns file) file.extendees
  rw [ofExtensions, ScopedExtension.grouped_ofFile, ofRegistrations]
  cases h : file.extendees with
  | nil =>
    -- Without extensions there is no unit for them, and nothing is looked up.
    exact Follows.pure []
  | cons extendee rest =>
    rw [h] at hcalls
    rw [if_neg (List.cons_ne_nil _ _)]
    refine Follows.bind_pure ?_ _
    rw [List.mapM_map]
    exact hcalls

/-- Printing a file follows the references of the file. -/
theorem follows_ofFile (t : PackageTable) (ns : Namespace) (stem : String) (file : File) :
    Follows t (ofFile t ns stem file) file.references (resolved t ns stem file) := by
  -- The types of the file itself are those in the empty scope.
  have hroot : ns.join ⟨[]⟩ = ns := Namespace.join_root ns
  have htypes := follows_ofMessages t ns [] file.messages
  have henums := map_ofEnum t ns [] file.enums
  rw [hroot] at htypes henums
  rw [ofFile, File.references, resolved, Declaration.ofFile, List.map_append, ← henums]
  refine htypes.bind ?_
  exact (follows_ofExtensions t ns stem file).bind_pure _

end SourceUnit

/-- The units of a file and the warnings about its references, once all of these are looked up. -/
theorem fileUnits_eq (t : PackageTable) (file : Descriptor.File) (options : Options) :
    fileUnits t file options =
      match file.references.find? (!Reference.isQualified ·) with
      | some r => .error (.unqualifiedReference r)
      | none =>
        .ok (SourceUnit.resolved t (options.namespaceFor file.package) (Text.fileStem file.name)
          file, t.warnings file.references) := by
  have hunits := SourceUnit.follows_ofFile t (options.namespaceFor file.package)
    (Text.fileStem file.name) file []
  rw [Resolving.visit_nil_log] at hunits
  show SourceUnit.ofFile _ _ _ _ [] = _
  rw [hunits]
  cases file.references.find? (!Reference.isQualified ·) <;> rfl

/-- Generating a file fails at its first reference that is not fully qualified; without one it gives
the files of the units and the warnings about the references. -/
theorem generateFile_eq (t : PackageTable) (date : Option Timestamp) (file : Descriptor.File)
    (options : Options) :
    generateFile t date file options =
      match file.references.find? (!Reference.isQualified ·) with
      | some r => .error (.unqualifiedReference r)
      | none =>
        .ok ⟨Assembly.files
          (SourceUnit.resolved t (options.namespaceFor file.package) (Text.fileStem file.name) file)
          (Text.fileStem file.name) options ⟨file.name, date⟩, t.warnings file.references⟩ := by
  rw [generateFile, fileUnits_eq]
  cases file.references.find? (!Reference.isQualified ·) <;> rfl

/-- A file with fully qualified references is generated, and no other file is. -/
theorem generateFile_eq_ok_iff {t : PackageTable} {date : Option Timestamp}
    {file : Descriptor.File} {options : Options} {output : Output} :
    generateFile t date file options = .ok output ↔
      (∀ r ∈ file.references, Reference.isQualified r = true) ∧
        output = ⟨Assembly.files
          (SourceUnit.resolved t (options.namespaceFor file.package) (Text.fileStem file.name) file)
          (Text.fileStem file.name) options ⟨file.name, date⟩, t.warnings file.references⟩ := by
  have hnone : file.references.find? (!Reference.isQualified ·) = none ↔
      ∀ r ∈ file.references, Reference.isQualified r = true := by simp
  rw [generateFile_eq, ← hnone]
  cases file.references.find? (!Reference.isQualified ·) with
  | some r => simp
  | none => simp [eq_comm]

end ProtoPhp
