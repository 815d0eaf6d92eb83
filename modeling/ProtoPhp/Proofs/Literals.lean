/-
The literals in the source of a unit.

Names and default values reach the source of a unit as literals between double quotes.
The lines inside of a literal get no margin, and so a literal stands in the source as
it was made.  It stands behind the words that assign it, once in the statements that
describe the field and, for the default value of a field that does not repeat, once in
the property.

* `Php.Assigns` — a line of a text assigns the literal of a value;
* `SourceUnit.Describes`, `SourceUnit.Declares` — the literals that the statements
  about a field and its property are to have;
* `SourceUnit.literals_of_source` — the literals of a unit, field by field, and what
  they denote.
-/
import ProtoPhp.Proofs.Php.DoubleQuoted
import ProtoPhp.Proofs.UnitContent

namespace ProtoPhp

open Descriptor Php

/-- A line of a text has some words behind its margin and assigns the literal of a value.  The literal may
itself go over several lines. -/
def Php.Assigns (text words value : String) : Prop :=
  ∃ before depth after,
    text = before ++ "\n" ++ margin depth ++ words ++ quote value ++ ";\n" ++ after

theorem Php.Assigns.within {text words value : String} (h : Assigns text words value)
    (front back : String) : Assigns (front ++ text ++ back) words value := by
  obtain ⟨before, depth, after, rfl⟩ := h
  exact ⟨front ++ before, depth, after ++ back, by simp only [String.append_assoc]⟩

/-- A line that assigns a literal is written behind its margin and not touched otherwise. -/
theorem Php.assigns_lines (n : Nat) (front : List String) (words value : String) (back : List String)
    (h : front ≠ []) :
    Assigns (render (deepen n (lines (front ++ [words ++ quote value ++ ";"] ++ back)))) words
      value := by
  obtain ⟨before, last, rfl⟩ : ∃ before last, front = before ++ [last] :=
    ⟨_, _, (List.dropLast_append_getLast h).symm⟩
  obtain ⟨start, hstart⟩ : ∃ start, render (deepen n (lines [last])) = start ++ "\n" := by
    by_cases hlast : last = ""
    · rw [hlast]
      exact ⟨"", (render_deepen_blank n).trans String.empty_append.symm⟩
    · exact ⟨_, render_deepen_line n hlast⟩
  have hline : render (deepen n (lines [words ++ quote value ++ ";"])) =
      margin n ++ words ++ quote value ++ ";\n" := by
    have hbreak : ";\n" = ";" ++ "\n" := by decide
    rw [render_deepen_line n (by simp [String.append_eq_empty_iff]), hbreak]
    simp only [String.append_assoc]
  refine ⟨render (deepen n (lines before)) ++ start, n, render (deepen n (lines back)), ?_⟩
  rw [lines_append, lines_append, lines_append, deepen_append, deepen_append, deepen_append, render_append,
    render_append, render_append, hstart, hline]
  simp only [String.append_assoc]

namespace SourceUnit

/-- A text assigns the name of a field and, if values of the field are texts, its default value. -/
structure Describes (name : String) (f : Descriptor.Field) (text : String) : Prop where
  name : Assigns text "$f->name      = " name
  default : f.holdsText = true → ∀ d ∈ f.defaultValue, Assigns text "$f->default   = " d

/-- A text assigns the default value of a field to its property, if values of the field are texts and the
field does not repeat. -/
def Declares (f : Descriptor.Field) (text : String) : Prop :=
  f.label ≠ .repeated → f.holdsText = true →
    ∀ d ∈ f.defaultValue, Assigns text ("public $" ++ f.name ++ " = ") d

theorem Describes.within {name : String} {f : Descriptor.Field} {text : String} (h : Describes name f text)
    (front back : String) : Describes name f (front ++ text ++ back) :=
  ⟨h.name.within front back, fun htext d hd => (h.default htext d hd).within front back⟩

variable {t : PackageTable}

/-- The default value of a field that holds texts is printed as a literal. -/
theorem default?_of_holdsText {f : Descriptor.Field} (htext : f.holdsText = true) {d : String}
    (hd : d ∈ f.defaultValue) : (t.field f).default? = some (quote d) := by
  show f.defaultValue.map (literal (t.valueType f)) = some (quote d)
  rw [hd, Option.map_some, PackageTable.literal_of_holdsText htext]

/-- The statements about a field at any depth. -/
theorem describes_metadata (name : String) (f : Descriptor.Field) (n : Nat) :
    Describes name f (render (deepen n ((t.field f).metadata name))) := by
  have hfourth : ∀ (a b c d : String) (rest : List String),
      a :: b :: c :: d :: rest = [a, b, c] ++ [d] ++ rest := fun _ _ _ _ _ => rfl
  refine ⟨?_, fun htext d hd => ?_⟩
  · rw [Field.metadata, List.append_assoc, List.cons_append, List.cons_append, List.cons_append,
      List.cons_append, hfourth]
    exact assigns_lines n _ "$f->name      = " name _ (List.cons_ne_nil _ _)
  · -- The default value is assigned by the last of the statements.
    rw [Field.metadata, default?_of_holdsText htext hd, ← List.append_nil (_ ++ _)]
    exact assigns_lines n _ "$f->default   = " d [] (List.append_ne_nil_of_left_ne_nil (by simp) _)

/-- The property of a field at any depth. -/
theorem declares_property (f : Descriptor.Field) (n : Nat) :
    Declares f (render (deepen n (t.field f).property)) := by
  intro hlabel htext d hd
  have hsingular : ¬(t.field f).isRepeated = true := fun e => hlabel (of_decide_eq_true e)
  rw [Field.property, if_neg hsingular, default?_of_holdsText htext hd]
  exact assigns_lines n ["/** @var " ++ (t.field f).type.docType ++ " */"]
    ("public $" ++ f.name ++ " = ") d [""] (List.cons_ne_nil _ _)

/-- The source of a class has the statements about its fields, one field after the other, and behind them
the properties. -/
theorem source_fields (t : PackageTable) (scope : Namespace) (m : Message) :
    ∃ before between after, render (messageCode scope m.name (m.fields.map t.field)) =
      before ++ String.join (m.fields.map fun f => render (deepen 4 (addFieldCode (t.field f)))) ++
        between ++ String.join (m.fields.map fun f => render (deepen 2 (t.field f).property)) ++
        after := by
  let owner := scope.child m.name
  let fields := m.fields.map t.field
  refine ⟨messageHead scope m.name ++ "\n", render (deepen 2 (descriptorClosing ++ blank)),
    render (deepen 2 (blank ++ fields.flatMap fun f => (f.accessors owner).flatMap Method.code)) ++
      "  \x7d\n\x7d\n", ?_⟩
  have hmembers : deepen 2 (members owner fields) =
      ⟨4, ""⟩ :: (deepen 4 (fields.flatMap addFieldCode) ++ deepen 2 (descriptorClosing ++ blank) ++
        deepen 2 (fields.flatMap Field.property) ++
        deepen 2 (blank ++ fields.flatMap fun f => (f.accessors owner).flatMap Method.code)) := by
    simp [members, deepen, Nat.add_assoc]
  have hblank : (⟨4, ""⟩ : Line).render = "\n" := rfl
  have hadded : fields.flatMap addFieldCode = m.fields.flatMap fun f => addFieldCode (t.field f) :=
    List.flatMap_map ..
  have hproperties : fields.flatMap Field.property = m.fields.flatMap fun f => (t.field f).property :=
    List.flatMap_map ..
  rw [render_messageCode, hmembers, render_cons, hblank, render_append, render_append, render_append,
    hadded, hproperties, deepen_flatMap, deepen_flatMap, render_flatMap, render_flatMap]
  simp only [String.append_assoc]

theorem source_extensions (es : List ScopedExtension) :
    render ((Content.extensions es).code t .root) =
      "namespace \x7b\n" ++ String.join (es.map (blockOf t)) ++ "\x7d\n" := by
  show render (registrationsCode _) = _
  rw [registrationsCode, Php.block, enclose, render_append, render_append, indent_eq_deepen,
    ← List.flatMap_def, deepen_flatMap, render_flatMap]
  rfl

/-- The block that registers an extension describes the extension under its qualified name. -/
theorem describes_blockOf (e : ScopedExtension) :
    Describes e.qualifiedName e.field (blockOf t e) := by
  rw [blockOf, render_registrationCode, ← Field.render_metadata]
  have h := describes_metadata (t := t) e.qualifiedName e.field 2
  have hblock := h.within ("  " ++
    ("\\" ++ "\\".intercalate (t.target e.field.extendeeName).segments) ++
    "::extension(function()\x7b\n") "    return $f;\n  \x7d);\n"
  simpa only [String.append_assoc] using hblock

theorem describes_addFieldCode (f : Descriptor.Field) (n : Nat) :
    Describes f.name f (render (deepen n (addFieldCode (t.field f)))) := by
  have h := (describes_metadata (t := t) f.name f n).within ""
    (render (deepen n (lines ["$descriptor->addField($f);", ""])))
  have hname : (t.field f).name = f.name := rfl
  rw [addFieldCode, hname, deepen_append, render_append]
  rwa [String.empty_append] at h

/-- The literal of a text is read to its closing quote and no further, whatever stands behind it; nothing
is put in for a variable, and what is denoted is the text.  The literals of names and of default values
stand like this in the source of every unit: each field and each extension is described by a piece of the
source of its own, and each field of a message is declared by another.  What describes and declares a
field does so at any depth. -/
theorem literals_of_source {c : Content} {u : SourceUnit} (h : u.Prints t c) :
    (∀ text rest, readLiteral ((quote text).toList ++ rest) = ⟨Wire.encodeText text, .closed rest⟩) ∧
      (∀ name f n, Describes name f (render (deepen n ((t.field f).metadata name))) ∧
        Declares f (render (deepen n (t.field f).property))) ∧
      ∃ before descriptions between declarations after,
        u.source = before ++ String.join descriptions ++ between ++ String.join declarations ++ after ∧
        List.Forall₂ (fun p => Describes p.1 p.2) c.described descriptions ∧
        List.Forall₂ Declares c.properties declarations := by
  refine ⟨readLiteral_quote, fun name f n => ⟨describes_metadata name f n, declares_property f n⟩, ?_⟩
  have hcode := h.holds.code_eq
  cases c with
  | type d =>
    cases d with
    | enum e => exact ⟨u.source, [], "", [], "", by simp, .nil, .nil⟩
    | message m =>
      obtain ⟨before, between, after, hsource⟩ := source_fields t u.scope m
      refine ⟨before, _, between, _, after, (congrArg render hcode).trans hsource, ?_, ?_⟩
      · rw [Content.described, List.forall₂_map_left_iff, List.forall₂_map_right_iff,
          List.forall₂_same]
        exact fun f _ => describes_addFieldCode f 4
      · rw [Content.properties, List.forall₂_map_right_iff, List.forall₂_same]
        exact fun f _ => declares_property f 2
  | extensions es =>
    rw [h.holds.scope_eq es rfl] at hcode
    refine ⟨"namespace \x7b\n", es.map (blockOf t), "\x7d\n", [], "",
      ((congrArg render hcode).trans (source_extensions es)).trans ?_, ?_, .nil⟩
    · rw [String.join_nil, String.append_empty, String.append_empty]
    · rw [Content.described, List.forall₂_map_left_iff, List.forall₂_map_right_iff, List.forall₂_same]
      exact fun e _ => describes_blockOf e

/-- A default value over two lines with everything in it that could end a literal or put a variable in,
once of a field and once of an extension. -/
theorem literals_of_source_hostile_texts :
    let text := "\";\n  \x7d // $x \x7b$y\x7d \\"
    let body : Descriptor.Field :=
      { name := "body", number := 1, type := .bytes, defaultValue := some text }
    let extra : Descriptor.Field :=
      { name := "extra", number := 9, type := .string, extendee := some ".Note"
        defaultValue := some text }
    let m : Message := { name := "Note", fields := [body] }
    let file : File := { messages := [m], extensions := [extra] }
    let table := PackageTable.ofList []
    ∃ first last log, fileUnits table file {} = .ok ([first, last], log) ∧
      Assigns first.source "$f->name      = " "body" ∧
      Assigns first.source "$f->default   = " text ∧
      Assigns first.source "public $body = " text ∧
      Assigns last.source "$f->name      = " "extra" ∧
      Assigns last.source "$f->default   = " text ∧
      quote text = "\"\\\";\n  \x7d // \\$x \x7b\\$y\x7d \\\\\"" := by
  intro text body extra m file table
  have hnone : file.references.find? (!Reference.isQualified ·) = none := by decide
  obtain ⟨units, log, hunits⟩ : ∃ units log, fileUnits table file {} = .ok (units, log) := by
    rw [fileUnits_eq, hnone]
    exact ⟨_, _, rfl⟩
  have hcontents : contents (({} : Options).namespaceFor file.package) file =
      [.type (.message m), .extensions [⟨.root, extra⟩]] := rfl
  have hall := forall₂_prints hunits
  rw [hcontents] at hall
  obtain ⟨first, hfirst, last, hlast, rfl⟩ : ∃ first, first.Prints table (.type (.message m)) ∧
      ∃ last, last.Prints table (.extensions [⟨.root, extra⟩]) ∧ units = [first, last] := by
    simpa [List.forall₂_cons_left_iff] using hall
  obtain ⟨-, -, before, descriptions, between, declarations, after, hsource, hdescribed, hdeclared⟩ :=
    literals_of_source hfirst
  obtain ⟨description, hbody, rfl⟩ : ∃ d, Describes "body" body d ∧ descriptions = [d] := by
    simpa [Content.described, m, List.forall₂_cons_left_iff] using hdescribed
  obtain ⟨declaration, hproperty, rfl⟩ : ∃ d, Declares body d ∧ declarations = [d] := by
    simpa [Content.properties, m, List.forall₂_cons_left_iff] using hdeclared
  obtain ⟨-, -, before', descriptions, between', declarations, after', hsource', hdescribed, hdeclared⟩ :=
    literals_of_source hlast
  obtain ⟨registration, hextra, rfl⟩ : ∃ d, Describes "extra" extra d ∧ descriptions = [d] := by
    have hname : (⟨.root, extra⟩ : ScopedExtension).qualifiedName = "extra" := by decide
    simpa [Content.described, hname, List.forall₂_cons_left_iff] using hdescribed
  have hbody := hbody.within before (between ++ declaration ++ after)
  have hproperty := (hproperty (by decide) rfl text rfl).within (before ++ description ++ between) after
  have hextra := hextra.within before' (between' ++ String.join declarations ++ after')
  simp only [String.join_cons, String.join_nil, String.append_empty, ← String.append_assoc]
    at hsource hsource' hbody hproperty hextra
  have hwords : "public $" ++ body.name ++ " = " = "public $body = " := by decide
  rw [← hsource] at hbody hproperty
  rw [hwords] at hproperty
  rw [← hsource'] at hextra
  exact ⟨first, last, log, hunits, hbody.name, hbody.default rfl text rfl, hproperty, hextra.name,
    hextra.default rfl text rfl, by decide⟩

end SourceUnit

end ProtoPhp
