/-
One unit for each declared type.

The types of a file are printed in post-order: the enums of a message, the
messages inside it, the message itself.  Each type has one unit, which shows the
names of the messages around the type as its namespace and the name of the type as
that of its class.  One more unit follows if the file declares an extension
anywhere.

* `Descriptor.File.allMessages`, `Descriptor.File.allEnums` — the types of a file
  at any depth, without the order of printing;
* `Declaration.types_perm` — the declarations in post-order are these types;
* `SourceUnit.Shows` — what the unit of a declaration is and what its source says;
* `units_of_generateFile` — the units of a generated file.
-/
import Mathlib.Data.List.Forall2
import ProtoPhp.Proofs.Php.ClassHead
import ProtoPhp.Proofs.Units

namespace ProtoPhp

namespace Descriptor

mutual

/-- A message, then the messages inside it at any depth. -/
def Message.allMessages : Message → List Message
  | m@{ messages, .. } => m :: messagesOf messages

/-- The messages of a list, each with those inside it. -/
def messagesOf : List Message → List Message
  | [] => []
  | m :: ms => m.allMessages ++ messagesOf ms

end

/-- The messages that a file declares at any depth. -/
def File.allMessages (file : File) : List Message := messagesOf file.messages

/-- The enums that a file declares at any depth. -/
def File.allEnums (file : File) : List Enum :=
  file.enums ++ file.allMessages.flatMap (·.enums)

theorem File.extendees_eq_nil_iff {file : File} :
    file.extendees = [] ↔ file.allExtensions = [] := by
  rw [extendees]
  cases file.allExtensions with
  | nil => simp
  | cons f fs => simp [List.eraseDups_cons]

end Descriptor

open Descriptor

namespace Declaration

/-- The types of some messages and the enums inside them, messages first. -/
def typesOf (messages : List Message) : List DeclaredType :=
  messages.map .message ++ (messages.flatMap (·.enums)).map .enum

theorem typesOf_append (ms ms' : List Message) :
    (typesOf ms ++ typesOf ms').Perm (typesOf (ms ++ ms')) := by
  rw [typesOf, typesOf, typesOf, List.map_append, List.flatMap_append, List.map_append,
    List.append_assoc, List.append_assoc]
  exact (List.perm_append_comm_assoc _ _ _).append_left _

/-- A message adds itself and its own enums. -/
theorem typesOf_cons (m : Message) (ms : List Message) :
    (m.enums.map DeclaredType.enum ++ typesOf ms ++ [DeclaredType.message m]).Perm
      (typesOf (m :: ms)) := by
  rw [typesOf, typesOf, List.map_cons, List.flatMap_cons, List.map_append, List.cons_append]
  refine (List.perm_append_singleton _ _).trans (.cons _ ?_)
  exact List.perm_append_comm_assoc _ _ _

mutual

/-- The declarations of a message are the types at any depth, each of them once. -/
theorem types_ofMessage_perm (scope : List String) :
    ∀ m : Message, ((ofMessage scope m).map type).Perm (typesOf m.allMessages)
  | { name, messages, .. } => by
    rw [ofMessage, Message.allMessages, List.map_append, List.map_append, List.map_map]
    refine .trans ?_ (typesOf_cons _ (messagesOf messages))
    exact ((types_ofMessages_perm (scope ++ [name]) messages).append_left _).append_right _

/-- The declarations of a list of messages are the types at any depth, each of them once. -/
theorem types_ofMessages_perm (scope : List String) :
    ∀ ms : List Message, ((ofMessages scope ms).map type).Perm (typesOf (messagesOf ms))
  | [] => .nil
  | m :: ms => by
    rw [ofMessages, messagesOf, List.map_append]
    refine .trans ?_ (typesOf_append _ _)
    exact (types_ofMessage_perm scope m).append (types_ofMessages_perm scope ms)

end

/-- The declarations of a file are its messages and enums at any depth, each of them once. -/
theorem types_perm (file : File) :
    ((ofFile file).map type).Perm
      (file.allMessages.map .message ++ file.allEnums.map .enum) := by
  rw [ofFile, File.allEnums, List.map_append, List.map_map, List.map_append]
  refine ((types_ofMessages_perm [] file.messages).append_left _).trans ?_
  exact List.perm_append_comm_assoc _ _ _

end Declaration

/-- The source of a type in a namespace up to its first field or value. -/
def DeclaredType.head (scope : Namespace) : DeclaredType → String
  | .message m => Php.messageHead scope m.name
  | .enum e => Php.enumHead scope e.name

namespace SourceUnit

/-- A unit shows a declaration of a file whose types live in `ns`: its name is that of the type, its
namespace ends in the names of the messages around the type, and its source starts with the two. -/
structure Shows (ns : Namespace) (d : Declaration) (u : SourceUnit) : Prop where
  name : u.name = d.name
  scope : u.scope = ns.join ⟨d.scope⟩
  source : ∃ rest, u.source = d.type.head (ns.join ⟨d.scope⟩) ++ rest

theorem shows_ofDeclaration (t : PackageTable) (ns : Namespace) (d : Declaration) :
    Shows ns d (ofDeclaration t ns d) := by
  refine ⟨rfl, rfl, ?_⟩
  rw [source, ofDeclaration]
  cases d.type with
  | message m => exact Php.source_messageCode _ _ _
  | enum e => exact Php.source_enumCode _ _

/-- The unit of the registrations stands in the global namespace.  There is one exactly if the file
declares an extension. -/
theorem ofRegistrations_cases (t : PackageTable) (ns : Namespace) (stem : String) (file : File) :
    (ofRegistrations t ns stem file = [] ∧ file.allExtensions = []) ∨
      ∃ u, ofRegistrations t ns stem file = [u] ∧ file.allExtensions ≠ [] ∧
        u.scope = .root ∧ u.name = stem ++ "-extensions" := by
  rw [ofRegistrations]
  by_cases h : file.extendees = []
  · rw [if_pos h]
    exact .inl ⟨rfl, File.extendees_eq_nil_iff.mp h⟩
  · rw [if_neg h]
    exact .inr ⟨_, rfl, mt File.extendees_eq_nil_iff.mpr h, rfl, rfl⟩

end SourceUnit

open SourceUnit

/-- The units of a generated file are those of its declarations in post-order, one for each, and then
one for the registrations if the file declares an extension at any depth.  Each declared message and
enum is among the declarations once. -/
theorem units_of_generateFile {t : PackageTable} {date : Option Timestamp} {file : File}
    {options : Options} {output : Output} (h : generateFile t date file options = .ok output) :
    ∃ types registrations : List SourceUnit,
      fileUnits t file options = .ok (types ++ registrations, output.warnings) ∧
      output.files = Assembly.files (types ++ registrations) (Text.fileStem file.name) options
        ⟨file.name, date⟩ ∧
      List.Forall₂ (Shows (options.namespaceFor file.package)) (Declaration.ofFile file) types ∧
      ((registrations = [] ∧ file.allExtensions = []) ∨
        ∃ u, registrations = [u] ∧ file.allExtensions ≠ [] ∧
          u.scope = .root ∧ u.name = Text.fileStem file.name ++ "-extensions") ∧
      ((Declaration.ofFile file).map Declaration.type).Perm
        (file.allMessages.map .message ++ file.allEnums.map .enum) ∧
      (types ++ registrations).length = file.allMessages.length + file.allEnums.length +
        if file.allExtensions = [] then 0 else 1 := by
  obtain ⟨hqualified, rfl⟩ := generateFile_eq_ok_iff.mp h
  have hnone : file.references.find? (!Reference.isQualified ·) = none := by
    simpa using hqualified
  have hperm := Declaration.types_perm file
  have hregistrations := ofRegistrations_cases t (options.namespaceFor file.package)
    (Text.fileStem file.name) file
  refine ⟨_, _, ?_, rfl, ?_, hregistrations, hperm, ?_⟩
  · rw [fileUnits_eq, hnone]
    rfl
  · -- Declaration by declaration the unit is the one printed for it.
    rw [List.forall₂_map_right_iff, List.forall₂_same]
    exact fun d _ => shows_ofDeclaration t _ d
  · have hlength := hperm.length_eq
    simp only [List.length_map, List.length_append] at hlength
    rw [List.length_append, List.length_map, hlength]
    rcases hregistrations with ⟨hnil, hextensions⟩ | ⟨u, hone, hextensions, -⟩
    · rw [hnil, if_pos hextensions, List.length_nil]
    · rw [hone, if_neg hextensions, List.length_singleton]

/-- A message with an enum, a message inside it and an extension, beside an enum. -/
theorem units_of_generateFile_nested :
    let color : Enum := { name := "Color", values := [{ name := "RED", number := 0 }] }
    let state : Enum := { name := "State" }
    let line : Message :=
      { name := "Line", extensions := [{ name := "note", extendee := some ".shop.Order" }] }
    let order : Message := { name := "Order", messages := [line], enums := [state] }
    let file : File :=
      { name := "shop/order.proto", package := "shop", messages := [order], enums := [color] }
    ∃ types registration,
      fileUnits .empty file { namespaceText := some "App" } =
        .ok (types ++ [registration], [.untrackedPackage "shop.Order"]) ∧
      List.Forall₂ (Shows ⟨["App"]⟩)
        [⟨[], .enum color⟩, ⟨["Order"], .enum state⟩, ⟨["Order"], .message line⟩,
          ⟨[], .message order⟩] types ∧
      registration.scope = .root ∧ registration.name = "order-extensions" := by
  intro color state line order file
  have hqualified : ∀ r ∈ file.references, Reference.isQualified r = true := by decide
  obtain ⟨types, registrations, hunits, -, hshows, hregistrations, -, -⟩ :=
    @units_of_generateFile .empty none file { namespaceText := some "App" } _
      (generateFile_eq_ok_iff.mpr ⟨hqualified, rfl⟩)
  have hns : ({ namespaceText := some "App" } : Options).namespaceFor file.package = ⟨["App"]⟩ := by
    decide
  have hstem : Text.fileStem file.name ++ "-extensions" = "order-extensions" := by decide
  rw [hns] at hshows
  rw [hstem] at hregistrations
  rcases hregistrations with ⟨-, hnone⟩ | ⟨registration, rfl, -, hscope, hname⟩
  · cases hnone
  · exact ⟨types, registration, hunits, hshows, hscope, hname⟩

end ProtoPhp
