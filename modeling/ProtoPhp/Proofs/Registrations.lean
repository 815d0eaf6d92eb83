/-
One registration for each declared extension.

The extensions of a file are met in the order of its types: a message comes after
the messages inside it, and the extensions outside of messages come last.  They
are printed as blocks of one unit, those of one extended message together, and
otherwise in the order in which they are met.

* `ScopedExtension.declared` — the extensions of a file, type by type;
* `ScopedExtension.map_field_declared_perm` — each declared extension is among
  them once;
* `SourceUnit.Registers` — the text of the block of an extension;
* `registrations_of_generateFile` — the unit of the registrations.
-/
import ProtoPhp.Proofs.Php.Written
import ProtoPhp.Proofs.PostOrder

namespace ProtoPhp

open Descriptor

namespace DeclaredType

/-- The extensions that a type declares. -/
def extensions : DeclaredType → List Field
  | .message m => m.extensions
  | .enum _ => []

end DeclaredType

namespace ScopedExtension

/-- The extensions that a type of a file declares, in the scope of that type. -/
def declaredBy (ns : Namespace) (d : Declaration) : List ScopedExtension :=
  d.type.extensions.map (⟨ns.join ⟨d.path⟩, ·⟩)

/-- The extensions of a file whose types live in `ns`, type by type and then those outside of types. -/
def declared (ns : Namespace) (file : File) : List ScopedExtension :=
  (Declaration.ofFile file).flatMap (declaredBy ns) ++ file.extensions.map (⟨ns, ·⟩)

/-- The name under which an extension is registered: its own, qualified with its scope. -/
def qualifiedName (e : ScopedExtension) : String :=
  if e.scope.segments.isEmpty then e.field.name
  else ".".intercalate e.scope.segments ++ "." ++ e.field.name

theorem dotted_child (e : ScopedExtension) :
    (e.scope.child e.field.name).dotted = e.qualifiedName := by
  rw [Namespace.dotted, Namespace.segments_child, qualifiedName]
  by_cases h : e.scope.segments = []
  · simp [h]
  · rw [String.intercalate_append_of_ne_nil h (List.cons_ne_nil _ _), if_neg (by simpa using h),
      String.intercalate_singleton]

theorem flatMap_declaredBy_enums (ns : Namespace) (scope : List String) (enums : List Enum) :
    (enums.map fun e => (⟨scope, .enum e⟩ : Declaration)).flatMap (declaredBy ns) = [] := by
  rw [List.flatMap_map, List.flatMap_eq_nil_iff]
  intro e _
  rfl

mutual

theorem ofMessage_eq (ns : Namespace) (scope : List String) :
    ∀ m : Message, ofMessage (ns.join ⟨scope⟩) m =
      (Declaration.ofMessage scope m).flatMap (declaredBy ns)
  | { name, messages, extensions, .. } => by
    rw [ofMessage, Declaration.ofMessage, List.flatMap_append, List.flatMap_append,
      flatMap_declaredBy_enums, List.nil_append, SourceUnit.join_child,
      ofMessages_eq ns (scope ++ [name]) messages]
    -- The message itself comes last in both.
    simp [declaredBy, DeclaredType.extensions, Declaration.path, Declaration.name]

theorem ofMessages_eq (ns : Namespace) (scope : List String) :
    ∀ ms : List Message, ofMessages (ns.join ⟨scope⟩) ms =
      (Declaration.ofMessages scope ms).flatMap (declaredBy ns)
  | [] => rfl
  | m :: ms => by
    rw [ofMessages, Declaration.ofMessages, List.flatMap_append, ofMessage_eq ns scope m,
      ofMessages_eq ns scope ms]

end

/-- The extensions of a file are met type by type. -/
theorem ofFile_eq (ns : Namespace) (file : File) : ofFile ns file = declared ns file := by
  have hmessages := ofMessages_eq ns [] file.messages
  rw [show ns.join ⟨[]⟩ = ns from Namespace.join_root ns] at hmessages
  rw [ofFile, declared, Declaration.ofFile, List.flatMap_append, flatMap_declaredBy_enums,
    List.nil_append, hmessages]

/-- Each extension that a file declares, in a message of any depth or outside, is met once. -/
theorem map_field_declared_perm (ns : Namespace) (file : File) :
    ((declared ns file).map (·.field)).Perm
      (file.allMessages.flatMap (·.extensions) ++ file.extensions) := by
  have htypes : ((Declaration.ofFile file).flatMap (declaredBy ns)).map (·.field) =
      ((Declaration.ofFile file).map Declaration.type).flatMap DeclaredType.extensions := by
    rw [List.map_flatMap, List.flatMap_map]
    refine List.flatMap_congr fun d _ => ?_
    rw [declaredBy, List.map_map]
    exact List.map_id _
  have hall : (file.allMessages.map DeclaredType.message ++
        file.allEnums.map DeclaredType.enum).flatMap DeclaredType.extensions =
      file.allMessages.flatMap (·.extensions) := by
    have henums : (file.allEnums.map DeclaredType.enum).flatMap DeclaredType.extensions = [] := by
      simp [DeclaredType.extensions]
    rw [List.flatMap_append, henums, List.append_nil, List.flatMap_map]
    rfl
  rw [declared, List.map_append, htypes, List.map_map, ← hall]
  refine ((Declaration.types_perm file).flatMap_right _).append ?_
  rw [show ((·.field) ∘ fun x => (⟨ns, x⟩ : ScopedExtension)) = id from rfl, List.map_id]

/-- The extensions of a file, those of one extended message together.  The extended messages come in
the order in which they are first met. -/
def groups (ns : Namespace) (file : File) : List ScopedExtension :=
  ((declared ns file).map (·.field.extendeeName)).eraseDups.flatMap fun extendee =>
    (declared ns file).filter fun e => e.field.extendeeName == extendee

theorem groups_perm (ns : Namespace) (file : File) : (groups ns file).Perm (declared ns file) := by
  refine Grouping.flatMap_filter_perm (fun e : ScopedExtension => e.field.extendeeName)
    (Grouping.nodup_eraseDups_map _ _) fun e he => ?_
  exact List.mem_eraseDups.mpr (List.mem_map_of_mem he)

theorem extendees_eq (ns : Namespace) (file : File) :
    file.extendees = ((declared ns file).map (·.field.extendeeName)).eraseDups := by
  rw [File.extendees, ← map_field_ofFile ns file, List.map_map, ofFile_eq]
  rfl

end ScopedExtension

namespace SourceUnit

open ScopedExtension Php

/-- A text is the block that registers an extension: it calls the class that the extended message is
resolved to, and builds the metadata object under the qualified name of the extension. -/
def Registers (t : PackageTable) (e : ScopedExtension) (text : String) : Prop :=
  ∃ extended log, t.resolve e.field.extendeeName = .ok ⟨extended, log⟩ ∧
    text = "  " ++ ("\\" ++ "\\".intercalate extended.segments) ++ "::extension(function()\x7b\n" ++
      (t.field e.field).metadataText 2 e.qualifiedName ++ "    return $f;\n  \x7d);\n"

/-- The printed block of an extension. -/
def blockOf (t : PackageTable) (e : ScopedExtension) : String :=
  render (indent (registrationCode (t.target e.field.extendeeName) e.scope (t.field e.field)))

theorem render_registrationCode (extended : Namespace) (e : ScopedExtension) (t : PackageTable) :
    render (indent (registrationCode extended e.scope (t.field e.field))) =
      "  " ++ ("\\" ++ "\\".intercalate extended.segments) ++ "::extension(function()\x7b\n" ++
        (t.field e.field).metadataText 2 e.qualifiedName ++ "    return $f;\n  \x7d);\n" := by
  have hname : (t.field e.field).name = e.field.name := rfl
  have hopening : render (deepen 1 (lines [absolute extended ++ "::extension(function()\x7b"])) =
      "  " ++ ("\\" ++ "\\".intercalate extended.segments) ++ "::extension(function()\x7b\n" := by
    rw [absolute_eq, render_deepen_lines 1 (by simp [String.append_eq_empty_iff])]
    apply String.ext
    simp [margin]
  have hreturn : render (deepen 2 (lines ["return $f;"])) = "    return $f;\n" := by decide +kernel
  have hclosing : render (deepen 1 (lines ["\x7d);"])) = "  \x7d);\n" := by decide +kernel
  rw [registrationCode, enclose, hname, dotted_child]
  simp only [indent_eq_deepen, deepen_append, deepen_deepen, render_append, Field.render_metadata,
    hopening, hreturn, hclosing]
  apply String.ext
  simp

/-- The calls for the extended messages one after the other are the calls group by group. -/
theorem flatten_registrationsOf (t : PackageTable) (ns : Namespace) (file : File) :
    (file.extendees.map (registrationsOf t ns file)).flatten =
      (groups ns file).flatMap fun e =>
        registrationCode (t.target e.field.extendeeName) e.scope (t.field e.field) := by
  rw [groups, ← extendees_eq, ← List.flatMap_def, List.flatMap_assoc]
  refine List.flatMap_congr fun extendee _ => ?_
  rw [registrationsOf, extending, ofFile_eq]
  refine List.flatMap_congr fun e he => ?_
  -- Inside a group the extended message is the one of the group.
  rw [beq_iff_eq.mp (List.mem_filter.mp he).2]

/-- The source of the registrations is one block after the other. -/
theorem source_registrations (t : PackageTable) (ns : Namespace) (file : File) :
    render (registrationsCode (file.extendees.map (registrationsOf t ns file))) =
      "namespace \x7b\n" ++
        String.join ((groups ns file).map (blockOf t)) ++ "\x7d\n" := by
  rw [registrationsCode, block, enclose, flatten_registrationsOf, render_append, render_append,
    indent_eq_deepen, deepen_flatMap, render_flatMap]
  rfl

theorem registers_blockOf {t : PackageTable} {e : ScopedExtension}
    (h : Reference.isQualified e.field.extendeeName = true) : Registers t e (blockOf t e) := by
  refine ⟨t.target e.field.extendeeName,
    (t.resolveQualified (Reference.name e.field.extendeeName)).warnings, ?_,
    render_registrationCode _ e t⟩
  rw [PackageTable.resolve_eq, if_pos h]
  rfl

end SourceUnit

open SourceUnit

/-- The extensions of a generated file are registered by its last unit, each of them by one block.  The
blocks stand group by group, where a group holds the extensions of one message in the order in which
they are met.  Each block calls the class of its own extended message and names the extension with the
scope that declares it. -/
theorem registrations_of_generateFile {t : PackageTable} {date : Option Timestamp} {file : File}
    {options : Options} {output : Output} (h : generateFile t date file options = .ok output)
    (hextensions : file.allExtensions ≠ []) :
    let ns := options.namespaceFor file.package
    ((ScopedExtension.declared ns file).map (·.field)).Perm
        (file.allMessages.flatMap (·.extensions) ++ file.extensions) ∧
      (ScopedExtension.groups ns file).Perm (ScopedExtension.declared ns file) ∧
      ∃ types registrations texts,
        fileUnits t file options = .ok (types ++ [registrations], output.warnings) ∧
        List.Forall₂ (Shows ns) (Declaration.ofFile file) types ∧
        registrations.scope = .root ∧
        registrations.name = Text.fileStem file.name ++ "-extensions" ∧
        List.Forall₂ (Registers t) (ScopedExtension.groups ns file) texts ∧
        registrations.source = "namespace \x7b\n" ++ String.join texts ++ "\x7d\n" := by
  intro ns
  obtain ⟨hqualified, rfl⟩ := generateFile_eq_ok_iff.mp h
  have hnone : file.references.find? (!Reference.isQualified ·) = none := by
    simpa using hqualified
  have hextendees : file.extendees ≠ [] := mt File.extendees_eq_nil_iff.mp hextensions
  have hblocks : ∀ e ∈ ScopedExtension.groups ns file,
      Reference.isQualified e.field.extendeeName = true := by
    intro e he
    -- Every block belongs to an extension of the file, whose extended message is looked up.
    have hfield : e.field ∈ file.allExtensions := by
      rw [← ScopedExtension.map_field_ofFile ns file, ScopedExtension.ofFile_eq]
      exact List.mem_map_of_mem ((ScopedExtension.groups_perm ns file).mem_iff.mp he)
    exact hqualified _ (File.mem_references.mpr (.inr ⟨e.field, hfield, rfl⟩))
  refine ⟨ScopedExtension.map_field_declared_perm ns file, ScopedExtension.groups_perm ns file,
    (Declaration.ofFile file).map (ofDeclaration t ns),
    ⟨.root, Text.fileStem file.name ++ "-extensions",
      Php.registrationsCode (file.extendees.map (registrationsOf t ns file))⟩,
    (ScopedExtension.groups ns file).map (blockOf t), ?_, ?_, rfl, rfl, ?_,
    source_registrations t ns file⟩
  · rw [fileUnits_eq, hnone]
    show Except.ok (resolved t ns _ file, _) = _
    rw [resolved, ofRegistrations, if_neg hextendees]
  · rw [List.forall₂_map_right_iff, List.forall₂_same]
    exact fun d _ => shows_ofDeclaration t ns d
  · rw [List.forall₂_map_right_iff, List.forall₂_same]
    exact fun e he => registers_blockOf (hblocks e he)

/-- Four extensions of two messages, declared in three scopes in turn. -/
theorem registrations_of_generateFile_interleaved :
    let line : Message :=
      { name := "Line", extensions := [{ name := "note", extendee := some ".a.X" }] }
    let order : Message :=
      { name := "Order", messages := [line]
        extensions := [{ name := "mark", extendee := some ".b.Y" },
          { name := "tag", extendee := some ".a.X" }] }
    let file : File :=
      { name := "shop/order.proto", package := "shop", messages := [order]
        extensions := [{ name := "rank", extendee := some ".b.Y" }] }
    let table := PackageTable.ofList [("a", .parse "A"), ("b", .parse "B.C")]
    let options : Options := { namespaceText := some "App" }
    file.allExtensions ≠ [] ∧
      (ScopedExtension.groups ⟨["App"]⟩ file).map (fun e => (e.field.extendeeName, e.qualifiedName)) =
        [(".a.X", "App.Order.Line.note"), (".a.X", "App.Order.tag"), (".b.Y", "App.Order.mark"),
          (".b.Y", "App.rank")] ∧
      ∃ types registrations texts,
        fileUnits table file options = .ok (types ++ [registrations], []) ∧
        registrations.name = "order-extensions" ∧
        List.Forall₂ (Registers table) (ScopedExtension.groups ⟨["App"]⟩ file) texts ∧
        registrations.source = "namespace \x7b\n" ++ String.join texts ++ "\x7d\n" := by
  intro line order file table options
  have hqualified : ∀ r ∈ file.references, Reference.isQualified r = true := by decide
  have hextensions : file.allExtensions ≠ [] := by decide
  obtain ⟨-, -, types, registrations, texts, hunits, -, -, hname, hblocks, hsource⟩ :=
    @registrations_of_generateFile table none file options _
      (generateFile_eq_ok_iff.mpr ⟨hqualified, rfl⟩) hextensions
  have hns : options.namespaceFor file.package = ⟨["App"]⟩ := by decide
  have hwarnings : table.warnings file.references = [] := by decide
  have hstem : Text.fileStem file.name ++ "-extensions" = "order-extensions" := by decide
  dsimp only at hunits
  rw [hwarnings] at hunits
  rw [hns] at hblocks
  rw [hstem] at hname
  exact ⟨hextensions, by decide, types, registrations, texts, hunits, hname, hblocks, hsource⟩

end ProtoPhp
