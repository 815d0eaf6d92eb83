/-
The units of messages whose names are identifiers.

A run over a file prints each message of the file as one unit.  If the names of the
message and the types that it refers to are made of identifiers, then what its unit
says about them is made of a few characters only, none of which means anything to
the code around.

* `SourceUnit.IsOf` — a unit is printed for a message;
* `SourceUnit.IsOf.code_eq`, `SourceUnit.IsOf.isQualified` — its code, and that the
  references of the message are fully qualified;
* `SourceUnit.IsNamed` — all names in it are identifiers;
* `Text.IsInert` — the few characters.
-/
import ProtoPhp.Proofs.ClassNames
import ProtoPhp.Proofs.Namespace.TypeNames

namespace ProtoPhp

open Descriptor

namespace Text

/-- A character of a word, or one that stands between words in paths and descriptions. -/
def isInertChar (c : Char) : Bool := isWordChar c || c ∈ ['\\', '.', '-', ' ']

/-- Words, and what stands between words in paths and descriptions. -/
def IsInert (text : String) : Prop := ∀ c ∈ text.toList, isInertChar c = true

instance (text : String) : Decidable (IsInert text) :=
  inferInstanceAs (Decidable (∀ c ∈ text.toList, isInertChar c = true))

theorem isInertChar_of_isWordChar {c : Char} (h : isWordChar c = true) : isInertChar c = true := by
  rw [isInertChar, h, Bool.true_or]

theorem IsInert.not_mem {text : String} (h : IsInert text) {c : Char} (hc : isInertChar c = false) :
    c ∉ text.toList := by
  intro hmem
  rw [h c hmem] at hc
  cases hc

theorem IsInert.append {a b : String} (ha : IsInert a) (hb : IsInert b) : IsInert (a ++ b) := by
  intro c hc
  rw [String.toList_append, List.mem_append] at hc
  exact hc.elim (ha c) (hb c)

theorem IsWord.isInert {name : String} (h : IsWord name) : IsInert name :=
  fun c hc => isInertChar_of_isWordChar (h.2 c hc)

theorem isInert_toString_int (n : Int) : IsInert (toString n) := by
  intro c hc
  rcases mem_toString_int hc with h | rfl
  · exact isInertChar_of_isWordChar h
  · rfl

theorem isInert_toString_nat (n : Nat) : IsInert (toString n) :=
  fun _ hc => isInertChar_of_isWordChar (isWordChar_of_mem_repr hc)

end Text

open Text

theorem Namespace.HasWords.isInert {ns : Namespace} (h : ns.HasWords) : IsInert (toString ns) := by
  intro c hc
  rcases h.mem_toString hc with h | rfl
  · exact isInertChar_of_isWordChar h
  · rfl

theorem Namespace.HasWords.isInert_absolute {ns : Namespace} (h : ns.HasWords) :
    IsInert (Php.absolute ns) :=
  IsInert.append (by decide) h.isInert

theorem IsTypeName.isInert {reference : String} (h : IsTypeName reference) : IsInert reference := by
  intro c hc
  rcases h.mem_reference hc with h | rfl
  · exact isInertChar_of_isWordChar h
  · rfl

namespace Descriptor

/-- Values of the field are texts. -/
def Field.holdsText (f : Field) : Bool := f.type == .string || f.type == .bytes

/-- The name of a message and those of its fields are identifiers, and type names are made of
identifiers. -/
structure Message.HasIdentifiers (m : Message) : Prop where
  name : isIdentifier m.name = true
  fields : ∀ f ∈ m.fields, isIdentifier f.name = true
  types : ∀ f ∈ m.fields, ∀ r ∈ f.typeName, IsTypeName r

theorem FieldType.isInert_keyword (type : FieldType) : IsInert type.keyword := by
  cases type <;> decide

theorem Label.isInert_keyword (label : Label) : IsInert label.keyword := by
  cases label <;> decide

/-- A reference of a field is its type name, unless there is none. -/
theorem Field.typeName_of_reference? {f : Field} {r : String} (h : f.reference? = some r)
    (hr : Reference.isQualified r = true) : f.typeName = some r := by
  have hgetD : some (f.typeName.getD "") = some r → f.typeName = some r := by
    intro h
    cases hname : f.typeName with
    | some name => rwa [hname] at h
    | none =>
      rw [hname] at h
      cases h
      cases hr
  unfold reference? at h
  split at h
  · exact hgetD h
  · exact hgetD h
  · exact h
  · cases h

mutual

theorem fields_subset_ofMessage (scope : List String) {d : Declaration} {m' : Message}
    (hd : d.type = .message m') :
    ∀ m : Message, d ∈ Declaration.ofMessage scope m → m'.fields ⊆ m.allFields
  | { name, fields, messages, enums, .. }, h => by
    rw [Declaration.ofMessage, List.mem_append, List.mem_append, List.mem_map,
      List.mem_singleton] at h
    rw [Message.allFields]
    rcases h with (⟨e, -, rfl⟩ | h) | rfl
    · cases hd
    · exact List.subset_append_of_subset_right _
        (fields_subset_ofMessages (scope ++ [name]) hd messages h)
    · cases hd
      exact List.subset_append_left _ _

theorem fields_subset_ofMessages (scope : List String) {d : Declaration} {m' : Message}
    (hd : d.type = .message m') :
    ∀ ms : List Message, d ∈ Declaration.ofMessages scope ms → m'.fields ⊆ fieldsOf ms
  | [], h => by
    rw [Declaration.ofMessages] at h
    cases h
  | m :: ms, h => by
    rw [Declaration.ofMessages, List.mem_append] at h
    rw [fieldsOf]
    rcases h with h | h
    · exact List.subset_append_of_subset_left _ (fields_subset_ofMessage scope hd m h)
    · exact List.subset_append_of_subset_right _ (fields_subset_ofMessages scope hd ms h)

end

/-- The fields of a declared message are fields of the file. -/
theorem File.fields_subset {file : File} {d : Declaration} {m : Message}
    (hd : d ∈ Declaration.ofFile file) (hm : d.type = .message m) : m.fields ⊆ file.allFields := by
  rw [Declaration.ofFile, List.mem_append, List.mem_map] at hd
  rcases hd with ⟨e, -, rfl⟩ | hd
  · cases hm
  · exact fields_subset_ofMessages [] hm file.messages hd

end Descriptor

namespace SourceUnit

/-- A run over some file prints the unit for a message that the file declares, at any depth. -/
def IsOf (t : PackageTable) (m : Message) (u : SourceUnit) : Prop :=
  ∃ (file : File) (options : Options) (units : List SourceUnit) (log : List Warning) (i : Nat)
    (scope : List String), fileUnits t file options = .ok (units, log) ∧
    (Declaration.ofFile file)[i]? = some ⟨scope, .message m⟩ ∧ units[i]? = some u

/-- Every declared message of a file whose references are fully qualified has its unit. -/
theorem isOf_ofDeclaration (t : PackageTable) (file : File) (options : Options)
    (hqualified : ∀ r ∈ file.references, Reference.isQualified r = true) (i : Nat)
    (scope : List String) (m : Message)
    (hd : (Declaration.ofFile file)[i]? = some ⟨scope, .message m⟩) :
    (ofDeclaration t (options.namespaceFor file.package) ⟨scope, .message m⟩).IsOf t m := by
  obtain ⟨units, log, hunits⟩ : ∃ units log, fileUnits t file options = .ok (units, log) := by
    have hnone : file.references.find? (!Reference.isQualified ·) = none := by
      simpa using hqualified
    rw [fileUnits_eq, hnone]
    exact ⟨_, _, rfl⟩
  exact ⟨file, options, units, log, i, scope, hunits, hd, getElem?_fileUnits hunits hd⟩

namespace IsOf

variable {t : PackageTable} {m : Message} {u : SourceUnit}

theorem code_eq (h : u.IsOf t m) :
    u.code = Php.messageCode u.scope m.name (m.fields.map t.field) := by
  obtain ⟨file, options, units, log, i, scope, hunits, hd, hu⟩ := h
  rw [getElem?_fileUnits hunits hd] at hu
  cases hu
  rfl

/-- The references of the message are fully qualified, since they were looked up. -/
theorem isQualified (h : u.IsOf t m) {f : Field} (hf : f ∈ m.fields) {r : String}
    (hr : f.reference? = some r) : Reference.isQualified r = true := by
  obtain ⟨file, options, units, log, i, scope, hunits, hd, -⟩ := h
  have hfile : f ∈ file.allFields := File.fields_subset (List.mem_of_getElem? hd) rfl hf
  have hmem : r ∈ file.references :=
    File.mem_references.mpr (.inl ⟨f, List.mem_append_left _ hfile, hr⟩)
  have hnone : file.references.find? (!Reference.isQualified ·) = none := by
    rw [fileUnits_eq] at hunits
    cases hfind : file.references.find? (!Reference.isQualified ·) with
    | none => rfl
    | some r =>
      rw [hfind] at hunits
      cases hunits
  simpa using List.find?_eq_none.mp hnone r hmem

end IsOf

end SourceUnit

/-- The comment about a field has inert characters and an equals sign. -/
theorem Php.Field.not_mem_comment {f : Php.Field} {name : String} (hname : IsInert name)
    (hschema : IsInert f.schemaType) {c : Char} (hc : isInertChar c = false) (hequals : c ≠ '=') :
    c ∉ (f.descriptor.label.keyword ++ " " ++ f.schemaType ++ " " ++ name ++ " = " ++ f.tag).toList := by
  have hspace : IsInert " " := by decide
  have hfront : IsInert (f.descriptor.label.keyword ++ " " ++ f.schemaType ++ " " ++ name) :=
    (((f.descriptor.label.isInert_keyword.append hspace).append hschema).append hspace).append hname
  have htag : IsInert f.tag := isInert_toString_int f.descriptor.number
  rw [String.toList_append, String.toList_append, List.mem_append, List.mem_append]
  rintro ((hmem | hmem) | hmem)
  · exact hfront.not_mem hc hmem
  · simp only [String.reduceToList, List.mem_cons, List.not_mem_nil, or_false] at hmem
    rcases hmem with rfl | rfl | rfl
    · cases hc
    · exact hequals rfl
    · cases hc
  · exact htag.not_mem hc hmem

theorem Php.ValueType.isInert_docType {type : ValueType}
    (h : ∀ target, type.target? = some target → target.HasWords) : IsInert type.docType := by
  cases type with
  | message target => exact (h target rfl).isInert_absolute
  | enum target =>
    show IsInert ("int - " ++ absolute target)
    exact IsInert.append (by decide) (h target rfl).isInert_absolute
  | group target =>
    show IsInert "unknown"
    decide
  | float | int | bool | string | bytes => decide

namespace PackageTable

variable {t : PackageTable}

theorem isInert_schemaType {f : Field} (h : ∀ r ∈ f.typeName, IsTypeName r) :
    IsInert (t.field f).schemaType := by
  show IsInert (f.typeName.getD f.type.keyword)
  cases hr : f.typeName with
  | some r => exact (h r hr).isInert
  | none => exact f.type.isInert_keyword

/-- The class of a field is the one that its reference stands for. -/
theorem target?_valueType (t : PackageTable) (f : Field) :
    (t.valueType f).target? = f.reference?.map t.target := by
  rw [valueType, Field.reference?]
  cases f.type <;> rfl

theorem holdsText_iff (t : PackageTable) (f : Field) :
    f.holdsText = true ↔ t.valueType f = .string ∨ t.valueType f = .bytes := by
  rw [valueType, Field.holdsText]
  cases f.type <;> simp

theorem literal_of_holdsText {f : Field} (h : f.holdsText = true) (text : String) :
    Php.literal (t.valueType f) text = Php.quote text := by
  rcases (holdsText_iff t f).mp h with h | h <;> rw [h] <;> rfl

/-- The literal of a default value that is no text has the characters of the value and inert ones. -/
theorem mem_literal {f : Field} (hf : f.holdsText = false)
    (h : ∀ target, (t.valueType f).target? = some target → target.HasWords) {text : String} {c : Char}
    (hc : c ∈ (Php.literal (t.valueType f) text).toList) :
    c ∈ text.toList ∨ isInertChar c = true ∨ c = ':' := by
  have hinert : ∀ s, IsInert s → c ∈ s.toList → c ∈ text.toList ∨ isInertChar c = true ∨ c = ':' :=
    fun s hs hc => .inr (.inl (hs c hc))
  -- A boolean and what is not finite have fixed spellings; an enum puts its class in front.
  cases htype : t.valueType f with
  | bool =>
    rw [htype, Php.literal, Php.boolLiteral] at hc
    split at hc
    · exact hinert "true" (by decide) hc
    · exact hinert "false" (by decide) hc
    · exact hinert "null" (by decide) hc
  | float =>
    rw [htype, Php.literal, Php.floatLiteral] at hc
    split_ifs at hc
    · exact hinert "INF" (by decide) hc
    · exact hinert "-INF" (by decide) hc
    · exact hinert "NAN" (by decide) hc
    · exact .inl hc
  | enum target =>
    rw [htype] at h
    rw [htype, Php.literal, String.toList_append, String.toList_append, List.mem_append,
      List.mem_append] at hc
    rcases hc with (hc | hc) | hc
    · exact hinert _ (h target rfl).isInert_absolute hc
    · exact .inr (.inr (by simpa using hc))
    · exact .inl hc
  | string | bytes =>
    have hf' : f.holdsText = true := (holdsText_iff t f).mpr (by simp [htype])
    rw [hf] at hf'
    cases hf'
  | int | message target | group target =>
    rw [htype] at hc
    exact .inl hc

end PackageTable

namespace SourceUnit

/-- The unit is printed for the message, and the table, its namespace and the message are made of
identifiers. -/
structure IsNamed (t : PackageTable) (m : Message) (u : SourceUnit) : Prop where
  printed : u.IsOf t m
  table : t.HasIdentifiers
  scope : ∀ s ∈ u.scope.segments, isIdentifier s = true
  message : m.HasIdentifiers

namespace IsNamed

variable {t : PackageTable} {m : Message} {u : SourceUnit} {f : Field}

theorem hasWords_scope (h : u.IsNamed t m) : u.scope.HasWords :=
  fun s hs => isWord_of_isIdentifier (h.scope s hs)

/-- The class of a field is the one of a type name. -/
theorem hasWords_target (h : u.IsNamed t m) (hf : f ∈ m.fields) {target : Namespace}
    (htarget : (t.valueType f).target? = some target) : target.HasWords := by
  rw [PackageTable.target?_valueType, Option.map_eq_some_iff] at htarget
  obtain ⟨r, hr, rfl⟩ := htarget
  have hname := Field.typeName_of_reference? hr (h.printed.isQualified hf hr)
  exact PackageTable.hasWords_target h.table (h.message.types f hf r hname)

theorem resolve_reference (h : u.IsNamed t m) :
    ∀ f ∈ m.fields, ∀ r ∈ f.reference?, ∃ warnings, t.resolve r = .ok ⟨t.target r, warnings⟩ := by
  intro f hf r hr
  rw [PackageTable.resolve_eq, if_pos (h.printed.isQualified hf hr)]
  exact ⟨_, rfl⟩

end IsNamed

end SourceUnit

end ProtoPhp
