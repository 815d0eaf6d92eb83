/-
What the units of a file are printed for.

A file gives one unit for each type that it declares, in the order of the types, and
one more for its extensions if it has any.  What is said about all of these units is
said once: a unit prints a content, and its code depends on nothing but the content,
the namespace around it and the table.

* `Content`, `SourceUnit.contents` — what a unit can be printed for, and what the
  units of a file are printed for;
* `SourceUnit.Prints`, `SourceUnit.forall₂_prints` — each unit of a run prints the
  content at its place;
* `SourceUnit.Prints.holds` — its code.
-/
import ProtoPhp.Proofs.MessageUnit
import ProtoPhp.Proofs.Registrations

namespace ProtoPhp

open Descriptor

/-- What a unit is printed for: a type, or extensions with the scopes that declare them. -/
inductive Content where
  | type (d : DeclaredType)
  | extensions (es : List ScopedExtension)
  deriving Inhabited

namespace Content

/-- The fields with their metadata, each under the name that is printed for it. -/
def described : Content → List (String × Field)
  | type (.enum _) => []
  | type (.message m) => m.fields.map fun f => (f.name, f)
  | extensions es => es.map fun e => (e.qualifiedName, e.field)

/-- The fields that are printed as properties. -/
def properties : Content → List Field
  | type (.message m) => m.fields
  | type (.enum _) | extensions _ => []

/-- The names of the type and of what is inside, or those of the extensions and of their scopes. -/
def names : Content → List String
  | type (.enum e) => e.name :: e.values.map (·.name)
  | type (.message m) => m.name :: m.fields.map (·.name)
  | extensions es => es.flatMap fun e => e.field.name :: e.scope.segments

/-- The type names of the fields, and the messages that are extended. -/
def references : Content → List String
  | type (.enum _) => []
  | type (.message m) => m.fields.filterMap (·.typeName)
  | extensions es => es.filterMap (·.field.typeName) ++ es.map (·.field.extendeeName)

/-- A field with metadata has its own name and its type name among those of the content. -/
theorem mem_of_described {c : Content} {p : String × Field} (h : p ∈ c.described) :
    p.2.name ∈ c.names ∧ ∀ r ∈ p.2.typeName, r ∈ c.references := by
  cases c with
  | type d =>
    cases d with
    | enum e => cases h
    | message m =>
      obtain ⟨f, hf, rfl⟩ := List.mem_map.mp h
      exact ⟨List.mem_cons_of_mem _ (List.mem_map_of_mem hf), fun r hr =>
        List.mem_filterMap.mpr ⟨f, hf, hr⟩⟩
  | extensions es =>
    obtain ⟨e, he, rfl⟩ := List.mem_map.mp h
    exact ⟨List.mem_flatMap.mpr ⟨e, he, List.mem_cons_self⟩, fun r hr =>
      List.mem_append_left _ (List.mem_filterMap.mpr ⟨e, he, hr⟩)⟩

/-- The code of a content in the namespace around it. -/
def code (t : PackageTable) (scope : Namespace) : Content → Php.Code
  | type d => SourceUnit.codeOf t scope d
  | extensions es => Php.registrationsCode (es.map fun e =>
      Php.registrationCode (t.target e.field.extendeeName) e.scope (t.field e.field))

end Content

namespace SourceUnit

open ScopedExtension

/-- What the units of a file are printed for, in their order. -/
def contents (ns : Namespace) (file : File) : List Content :=
  (Declaration.ofFile file).map (.type ·.type) ++
    if file.allExtensions = [] then [] else [.extensions (groups ns file)]

/-- A run over some file prints the unit for a content. -/
def Prints (t : PackageTable) (c : Content) (u : SourceUnit) : Prop :=
  ∃ (file : File) (options : Options) (units : List SourceUnit) (log : List Warning) (i : Nat),
    fileUnits t file options = .ok (units, log) ∧
    (contents (options.namespaceFor file.package) file)[i]? = some c ∧ units[i]? = some u

/-- The unit has the code of a content, and stands in the global namespace if it is for extensions. -/
structure Holds (t : PackageTable) (c : Content) (u : SourceUnit) : Prop where
  code_eq : u.code = c.code t u.scope
  scope_eq : ∀ es, c = .extensions es → u.scope = .root

/-- The units of a file hold its contents one by one. -/
theorem forall₂_contents (t : PackageTable) (ns : Namespace) (stem : String) (file : File) :
    List.Forall₂ (Holds t) (contents ns file) (resolved t ns stem file) := by
  refine List.rel_append ?_ ?_
  · rw [List.forall₂_map_left_iff, List.forall₂_map_right_iff, List.forall₂_same]
    exact fun d _ => ⟨rfl, nofun⟩
  · rw [ofRegistrations]
    by_cases h : file.allExtensions = []
    · rw [if_pos h, if_pos (File.extendees_eq_nil_iff.mpr h)]
      exact .nil
    · have hcode : Php.registrationsCode (file.extendees.map (registrationsOf t ns file)) =
          (Content.extensions (groups ns file)).code t .root := by
        rw [Php.registrationsCode, flatten_registrationsOf]
        exact congrArg (Php.block _) (List.flatMap_def ..)
      rw [if_neg h, if_neg (mt File.extendees_eq_nil_iff.mp h)]
      exact .cons ⟨hcode, fun _ _ => rfl⟩ .nil

theorem fileUnits_eq_ok {t : PackageTable} {file : File} {options : Options}
    {units : List SourceUnit} {log : List Warning}
    (h : fileUnits t file options = .ok (units, log)) :
    (∀ r ∈ file.references, Reference.isQualified r = true) ∧
      units = resolved t (options.namespaceFor file.package) (Text.fileStem file.name) file := by
  rw [fileUnits_eq] at h
  cases hfind : file.references.find? (!Reference.isQualified ·) with
  | some r =>
    rw [hfind] at h
    cases h
  | none =>
    rw [hfind] at h
    cases h
    exact ⟨by simpa using hfind, rfl⟩

/-- Every unit of a run prints the content at its place, and every content has its unit. -/
theorem forall₂_prints {t : PackageTable} {file : File} {options : Options}
    {units : List SourceUnit} {log : List Warning}
    (h : fileUnits t file options = .ok (units, log)) :
    List.Forall₂ (Prints t) (contents (options.namespaceFor file.package) file) units := by
  obtain ⟨-, rfl⟩ := fileUnits_eq_ok h
  have hall := forall₂_contents t (options.namespaceFor file.package) (Text.fileStem file.name) file
  rw [List.forall₂_iff_get]
  exact ⟨hall.length_eq, fun i h₁ h₂ => ⟨file, options, _, log, i, h, List.getElem?_eq_getElem h₁,
    List.getElem?_eq_getElem h₂⟩⟩

namespace Prints

variable {t : PackageTable} {c : Content} {u : SourceUnit}

theorem holds (h : u.Prints t c) : u.Holds t c := by
  obtain ⟨file, options, units, log, i, hunits, hc, hu⟩ := h
  obtain ⟨-, rfl⟩ := fileUnits_eq_ok hunits
  obtain ⟨hi, rfl⟩ := List.getElem?_eq_some_iff.mp hc
  obtain ⟨hi', rfl⟩ := List.getElem?_eq_some_iff.mp hu
  exact (forall₂_contents t _ _ file).get hi hi'

/-- The fields with their metadata are fields or extensions of a file whose references are all fully
qualified. -/
theorem exists_file (h : u.Prints t c) :
    ∃ file : File, (∀ r ∈ file.references, Reference.isQualified r = true) ∧
      ∀ p ∈ c.described, p.2 ∈ file.allFields ++ file.allExtensions := by
  obtain ⟨file, options, units, log, i, hunits, hc, -⟩ := h
  refine ⟨file, (fileUnits_eq_ok hunits).1, fun p hp => ?_⟩
  rcases List.mem_append.mp (List.mem_of_getElem? hc) with hmem | hmem
  · obtain ⟨d, hd, rfl⟩ := List.mem_map.mp hmem
    cases htype : d.type with
    | enum e =>
      rw [htype] at hp
      cases hp
    | message m =>
      rw [htype] at hp
      obtain ⟨f, hf, rfl⟩ := List.mem_map.mp hp
      exact List.mem_append_left _ (File.fields_subset hd htype hf)
  · split at hmem
    · cases hmem
    · obtain rfl := List.mem_singleton.mp hmem
      obtain ⟨e, he, rfl⟩ := List.mem_map.mp hp
      refine List.mem_append_right _ ?_
      rw [← map_field_ofFile (options.namespaceFor file.package) file, ofFile_eq]
      exact List.mem_map_of_mem ((groups_perm _ file).mem_iff.mp he)

/-- References are fully qualified, since they were looked up. -/
theorem isQualified (h : u.Prints t c) {p : String × Field} (hp : p ∈ c.described) {r : String}
    (hr : p.2.reference? = some r) : Reference.isQualified r = true := by
  obtain ⟨file, hqualified, hfields⟩ := h.exists_file
  exact hqualified r (File.mem_references.mpr (.inl ⟨p.2, hfields p hp, hr⟩))

end Prints

end SourceUnit

end ProtoPhp
