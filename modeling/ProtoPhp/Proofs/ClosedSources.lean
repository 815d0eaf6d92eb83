/-
Every unit is closed, whatever its default values say.

The names in a unit are identifiers, and what else is put into its code are numbers,
classes and default values.  Of these only texts can say anything, and a text stays in
its literal.  So the reading of the source of a unit finds the literals that were put
there and no others, and the braces are those of the unit: the first one opens its
namespace, and the last one closes it.

* `Content.literals` — the literals that a unit is to have, in their order;
* `Content.steps` — the steps of a cursor that writes a unit;
* `SourceUnit.IsTidy` — the names are identifiers, and other values than texts have no
  character that starts or ends anything;
* `SourceUnit.isClosedSource_of_isTidy` — the source of a tidy unit.
-/
import ProtoPhp.Proofs.Php.ClosedClasses
import ProtoPhp.Proofs.Php.Cursor
import ProtoPhp.Proofs.UnitContent

namespace ProtoPhp

open Descriptor Php Text

/-- The literal of the default value, if values of the field are texts. -/
def Descriptor.Field.textLexemes (f : Descriptor.Field) : List Lexeme :=
  if f.holdsText then (f.defaultValue.map textLexeme).toList else []

/-- The literals in the statements about a field: the name that is printed, the class that the field
refers to, and a default value that is a text. -/
def PackageTable.metadataLexemes (t : PackageTable) (name : String) (f : Descriptor.Field) :
    List Lexeme :=
  textLexeme name :: ((f.reference?.map fun r => classLexeme (t.target r)).toList ++ f.textLexemes)

namespace Content

/-- The literals of a unit.  A message has its own class and those of its fields, and once more the default
values of the fields that do not repeat. -/
def literals (t : PackageTable) (scope : Namespace) : Content → List Lexeme
  | type (.enum _) => []
  | type (.message m) =>
    classLexeme (scope.child m.name) :: (m.fields.flatMap fun f => t.metadataLexemes f.name f) ++
      m.fields.flatMap fun f => if f.label = .repeated then [] else f.textLexemes
  | extensions es => es.flatMap fun e => t.metadataLexemes e.qualifiedName e.field

/-- The steps that write a unit. -/
def steps (t : PackageTable) (scope : Namespace) : Content → List Step
  | type (.enum e) => enumSteps scope e
  | type (.message m) => messageSteps scope m.name (m.fields.map t.field)
  | extensions es => registrationsSteps (es.map fun e =>
      registrationSteps (t.target e.field.extendeeName) e.scope (t.field e.field))

theorem writes_steps (t : PackageTable) (scope : Namespace) (c : Content) :
    Writes (c.steps t scope) (c.code t scope) := by
  cases c with
  | type d =>
    cases d with
    | enum e => exact writes_enumSteps scope e
    | message m => exact writes_messageSteps scope m.name _
  | extensions es => exact writes_registrationsSteps fun e _ => writes_registrationSteps _ _ _

end Content

namespace SourceUnit

/-- All names in a unit are identifiers, and no type name is a package.  Default values that are no texts
have no character that ends a clause or starts a literal or a comment; letters, digits, underscores, dots
and signs are no such characters. -/
structure IsTidy (t : PackageTable) (c : Content) (u : SourceUnit) : Prop where
  printed : u.Prints t c
  table : t.HasIdentifiers
  scope : ∀ s ∈ u.scope.segments, isIdentifier s = true
  names : ∀ n ∈ c.names, isIdentifier n = true
  references : ∀ r ∈ c.references, IsTypeName r ∧ t.get? (Reference.name r) = none
  defaults : ∀ p ∈ c.described, p.2.holdsText = false → ∀ d ∈ p.2.defaultValue, IsQuietText d

namespace IsTidy

variable {t : PackageTable} {c : Content} {u : SourceUnit}

theorem hasWords_scope (h : u.IsTidy t c) : u.scope.HasWords :=
  fun s hs => isWord_of_isIdentifier (h.scope s hs)

theorem isTame_field (h : u.IsTidy t c) {p : String × Descriptor.Field} (hp : p ∈ c.described) :
    (t.field p.2).IsTame := by
  obtain ⟨hname, htypes⟩ := Content.mem_of_described hp
  exact PackageTable.isTame_field h.table (h.names _ hname) (fun r hr => h.references r (htypes r hr))
    (fun r hr => h.printed.isQualified hp hr) (h.defaults p hp)

/-- A default value has one literal if it is a text, and otherwise none. -/
theorem defaultLexes (h : u.IsTidy t c) {p : String × Descriptor.Field} (hp : p ∈ c.described) :
    (t.field p.2).DefaultLexes p.2.textLexemes := by
  have htargets := (h.isTame_field hp).targets
  have hdefault : (t.field p.2).default? = p.2.defaultValue.map (literal (t.valueType p.2)) := rfl
  rw [Php.Field.DefaultLexes, hdefault, Field.textLexemes]
  cases hvalue : p.2.defaultValue with
  | none => exact ite_self _
  | some d =>
    show LexesClosed (literal (t.valueType p.2) d) _
    by_cases htext : p.2.holdsText = true
    · rw [PackageTable.literal_of_holdsText htext, if_pos htext]
      exact lexesClosed_quote d
    · rw [if_neg htext]
      rw [Bool.not_eq_true] at htext
      have hquiet := h.defaults p hp htext d hvalue
      refine lexesClosed_flat fun c hc => ?_
      rcases PackageTable.mem_literal htext (fun target h => (htargets target h).1) hc with
        hc | hc | rfl
      · exact hquiet.isFlat c hc
      · exact isFlatChar_of_isInertChar hc
      · decide

theorem metadataLiterals_field (t : PackageTable) (f : Descriptor.Field) (name : String) :
    (t.field f).metadataLiterals name f.textLexemes = t.metadataLexemes name f := by
  have htarget : (t.field f).type.target? = f.reference?.map t.target :=
    PackageTable.target?_valueType t f
  rw [Php.Field.metadataLiterals, PackageTable.metadataLexemes, htarget, Option.map_map]
  rfl

/-- The qualified name of an extension is made of identifiers. -/
theorem isInert_qualifiedName (h : u.IsTidy t c) {es : List ScopedExtension} (hc : c = .extensions es)
    {e : ScopedExtension} (he : e ∈ es) : IsInert e.qualifiedName := by
  subst hc
  have hnames : ∀ n ∈ e.scope.segments ++ [e.field.name], isIdentifier n = true := by
    intro n hn
    refine h.names n (List.mem_flatMap.mpr ⟨e, he, ?_⟩)
    simpa [or_comm] using hn
  rw [← ScopedExtension.dotted_child]
  intro x hx
  rcases mem_intercalate hx with hdot | ⟨n, hn, hx⟩
  · obtain rfl : x = '.' := by simpa using hdot
    rfl
  · exact (isWord_of_isIdentifier (hnames n hn)).isInert x hx

theorem propertyLiterals_field (t : PackageTable) (f : Descriptor.Field) :
    (t.field f).propertyLiterals f.textLexemes =
      if f.label = .repeated then [] else f.textLexemes := by
  have hrepeated : (t.field f).isRepeated = decide (f.label = .repeated) := rfl
  simp [Php.Field.propertyLiterals, hrepeated]

theorem isClosedSource_enum {e : Descriptor.Enum} (h : u.IsTidy t (.type (.enum e))) :
    IsClosedSource (render (enumCode u.scope e)) (namespaceWords u.scope) [] :=
  isClosedSource_enumCode h.hasWords_scope (isWord_of_isIdentifier (h.names _ List.mem_cons_self))
    fun _ hv => isWord_of_isIdentifier (h.names _ (List.mem_cons_of_mem _ (List.mem_map_of_mem hv)))

theorem isClosedSource_message {m : Message} (h : u.IsTidy t (.type (.message m))) :
    IsClosedSource (render (messageCode u.scope m.name (m.fields.map t.field)))
      (namespaceWords u.scope) ((Content.type (.message m)).literals t u.scope) := by
  have hfields : ∀ f ∈ m.fields.map t.field, f.IsTame ∧ f.DefaultLexes f.descriptor.textLexemes := by
    intro f hf
    obtain ⟨d, hd, rfl⟩ := List.mem_map.mp hf
    have hmem : (d.name, d) ∈ (Content.type (.message m)).described :=
      List.mem_map_of_mem (f := fun f : Descriptor.Field => (f.name, f)) hd
    exact ⟨h.isTame_field hmem, h.defaultLexes hmem⟩
  have hclosed := isClosedSource_messageCode h.hasWords_scope
    (isWord_of_isIdentifier (h.names _ List.mem_cons_self)) hfields
  have hmetadata : (m.fields.flatMap fun f => t.metadataLexemes f.name f) =
      m.fields.flatMap fun f => (t.field f).metadataLiterals f.name f.textLexemes :=
    List.flatMap_congr fun f _ => (metadataLiterals_field t f f.name).symm
  have hproperties : (m.fields.flatMap fun f => if f.label = .repeated then [] else f.textLexemes) =
      m.fields.flatMap fun f => (t.field f).propertyLiterals f.textLexemes :=
    List.flatMap_congr fun f _ => (propertyLiterals_field t f).symm
  rw [List.flatMap_map, List.flatMap_map] at hclosed
  rw [Content.literals, hmetadata, hproperties]
  exact hclosed

theorem isClosedSource_extensions {es : List ScopedExtension} (h : u.IsTidy t (.extensions es)) :
    IsClosedSource (render ((Content.extensions es).code t .root)) (namespaceWords .root)
      ((Content.extensions es).literals t .root) := by
  refine isClosedSource_registrationsCode fun e he => ?_
  have hmem : (e.qualifiedName, e.field) ∈ (Content.extensions es).described :=
    List.mem_map_of_mem (f := fun e : ScopedExtension => (e.qualifiedName, e.field)) he
  have hname : (e.scope.child (t.field e.field).name).dotted = e.qualifiedName := e.dotted_child
  have hextendee : e.field.extendeeName ∈ (Content.extensions es).references :=
    List.mem_append_right _ (List.mem_map_of_mem he)
  have hinert := h.isInert_qualifiedName rfl he
  rw [← hname] at hinert
  have hclosed := printsClosed_registrationCode (h.isTame_field hmem) (h.defaultLexes hmem)
    (PackageTable.hasWords_target h.table (h.references _ hextendee).1) hinert
  rwa [metadataLiterals_field, hname] at hclosed

end IsTidy

/-- The source of a tidy unit is read to its end: no literal and no comment is left open, and what
follows the source is code.  It is one block, that of its namespace, with all other braces inside of it.
Each printed name, each quoted class and each default value that is a text is one literal, and there are
no others.  A cursor that writes the unit line by line never takes back a level at the outermost depth
and ends there. -/
theorem isClosedSource_of_isTidy {t : PackageTable} {c : Content} {u : SourceUnit} (h : u.IsTidy t c) :
    IsClosedSource u.source (namespaceWords u.scope) (c.literals t u.scope) ∧
      written? (c.steps t u.scope) = some u.source := by
  have hcode := h.printed.holds.code_eq
  refine ⟨?_, ?_⟩
  · cases c with
    | type d =>
      rw [source, hcode]
      cases d with
      | enum e => exact h.isClosedSource_enum
      | message m => exact h.isClosedSource_message
    | extensions es =>
      rw [h.printed.holds.scope_eq es rfl] at hcode ⊢
      rw [source, hcode]
      exact h.isClosedSource_extensions
  · rw [source, hcode]
    exact (c.writes_steps t u.scope).written?

/-- A text that looks like the end of its literal, of the class and of the namespace, in a message beside an
enum value, and the same text in an extension. -/
theorem isClosedSource_of_isTidy_imitating_ends :
    let text := "\";\n  \x7d\n\x7d\n/* ' \\"
    let body : Descriptor.Field :=
      { name := "body", number := 1, type := .string, defaultValue := some text }
    let kind : Descriptor.Field :=
      { name := "kind", number := 2, type := .enum, typeName := some ".shop.Kind"
        defaultValue := some "OPEN" }
    let note : Descriptor.Field :=
      { name := "note", number := 9, type := .bytes, extendee := some ".shop.Item"
        defaultValue := some text }
    let m : Message := { name := "Note", fields := [body, kind] }
    let file : File := { messages := [m], extensions := [note] }
    let table := PackageTable.ofList [("shop", .parse "App.Shop")]
    let escaped := "\\\";\n  \x7d\n\x7d\n/* ' \\\\".toList
    ∃ first last log, fileUnits table file { namespaceText := some "App" } = .ok ([first, last], log) ∧
      IsClosedSource first.source "namespace App "
        [.literal '\'' "\\App\\Note".toList, .literal '"' "body".toList, .literal '"' escaped,
          .literal '"' "kind".toList, .literal '\'' "\\App\\Shop\\Kind".toList, .literal '"' escaped] ∧
      IsClosedSource last.source "namespace "
        [.literal '"' "App.note".toList, .literal '"' escaped] := by
  intro text body kind note m file table escaped
  have hnone : file.references.find? (!Reference.isQualified ·) = none := by decide
  have hns : ({ namespaceText := some "App" } : Options).namespaceFor file.package = ⟨["App"]⟩ := by
    decide
  have hunits := fileUnits_eq table file { namespaceText := some "App" }
  rw [hnone, hns] at hunits
  have hcontents : contents ⟨["App"]⟩ file =
      [.type (.message m), .extensions [⟨⟨["App"]⟩, note⟩]] := rfl
  have hkind : IsTypeName ".shop.Kind" := ⟨["shop", "Kind"], by simp, by decide, by decide⟩
  have hitem : IsTypeName ".shop.Item" := ⟨["shop", "Item"], by simp, by decide, by decide⟩
  have hdefaults : ∀ p ∈ (Content.type (.message m)).described, p.2.holdsText = false →
      ∀ d ∈ p.2.defaultValue, d = "OPEN" := by decide
  have hfirst : IsTidy table (.type (.message m)) (ofDeclaration table ⟨["App"]⟩ ⟨[], .message m⟩) :=
    { printed := ⟨file, _, _, _, 0, hunits, by rw [hns, hcontents]; rfl, rfl⟩
      table := by decide
      scope := by decide
      names := by decide
      references := by
        intro r hr
        obtain rfl := List.mem_singleton.mp hr
        exact ⟨hkind, by decide⟩
      defaults := by
        intro p hp htext d hd
        obtain rfl := hdefaults p hp htext d hd
        exact isQuietText_of_all rfl (by decide) }
  have hlast : IsTidy table (.extensions [⟨⟨["App"]⟩, note⟩])
      ⟨.root, "-extensions",
        registrationsCode (file.extendees.map (registrationsOf table ⟨["App"]⟩ file))⟩ :=
    { printed := ⟨file, _, _, _, 1, hunits, by rw [hns, hcontents]; rfl, rfl⟩
      table := by decide
      scope := by decide
      names := by decide
      references := by
        intro r hr
        obtain rfl := List.mem_singleton.mp hr
        exact ⟨hitem, by decide⟩
      defaults := by
        intro p hp htext
        obtain rfl := List.mem_singleton.mp hp
        cases htext }
  obtain ⟨hfirstClosed, -⟩ := isClosedSource_of_isTidy hfirst
  obtain ⟨hlastClosed, -⟩ := isClosedSource_of_isTidy hlast
  refine ⟨_, _, _, hunits, ?_, ?_⟩
  · have hwords : namespaceWords ⟨["App"]⟩ = "namespace App " := by decide
    have hliterals : Content.literals table ⟨["App"]⟩ (.type (.message m)) =
        [.literal '\'' "\\App\\Note".toList, .literal '"' "body".toList, .literal '"' escaped,
          .literal '"' "kind".toList, .literal '\'' "\\App\\Shop\\Kind".toList,
          .literal '"' escaped] := by decide
    rw [← hwords, ← hliterals]
    exact hfirstClosed
  · have hwords : namespaceWords .root = "namespace " := by decide
    have hliterals : Content.literals table .root (.extensions [⟨⟨["App"]⟩, note⟩]) =
        [.literal '"' "App.note".toList, .literal '"' escaped] := by decide
    rw [← hwords, ← hliterals]
    exact hlastClosed

end SourceUnit

end ProtoPhp
