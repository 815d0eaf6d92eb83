/-
What the source of a message says about its fields.

The number, the name, the type, the label, the referenced class and the default
value of each field can be read off the source of a message, and so can the
initial values of its properties.  One reader does it for all messages.  A text for
a default value may hold line breaks, quotes and lines that look like those around
it; it is read as one literal all the same.

* `FieldReading.ofSource` — the reader;
* `FieldMetadata.reads_read`, `FieldMetadata.reads_readProperty` — what it reads for a field;
* `fields_of_source` — it finds the fields, and so equal sources have equal fields.
-/
import Mathlib
import ProtoPhp.Proofs.MessageUnit
import ProtoPhp.Proofs.Php.ClassHead
import ProtoPhp.Proofs.Php.Reader

namespace ProtoPhp

open Descriptor

/-- What the metadata object of a field says. -/
structure FieldMetadata where
  number : Int
  name : String
  /-- The code of the type. -/
  type : Nat
  /-- The code of the label. -/
  label : Nat
  reference : Option Namespace
  /-- The default value as a PHP expression. -/
  default : Option String
  deriving Repr, DecidableEq

/-- What the source of a message says about a field: its metadata and the initial value of its
property. -/
structure FieldReading extends FieldMetadata where
  initial : String
  deriving Repr, DecidableEq

namespace FieldMetadata

open Reader

/-- Takes a number and the semicolon behind it. -/
def readNumber : Reader Int := do
  let digits ← upTo ';'
  given digits.toInt?

/-- Takes the code of a type or of a label, and the semicolon behind it. -/
def readCode : Reader Nat := do
  let digits ← upTo ';'
  given digits.toNat?

/-- Takes a PHP expression and the semicolon behind it. -/
def readValue (isText : Bool) : Reader String :=
  if isText then do
    let literal ← quoted
    exact ";"
    return literal
  else upTo ';'

/-- Takes the line that names the class of a reference. -/
def readReference : Reader Namespace := do
  exact "        $f->reference = '\\"
  let path ← upTo '\''
  exact ";\n"
  return .parse path

/-- Takes the line with the default value. -/
def readDefault (isText : Bool) : Reader String := do
  exact "        $f->default   = "
  let literal ← readValue isText
  exact "\n"
  return literal

/-- The code of a type whose values are texts. -/
def isTextCode (type : Nat) : Bool := type == FieldType.string.code || type == FieldType.bytes.code

/-- Takes the statements that put a field into a descriptor. -/
def read : Reader FieldMetadata := do
  exact "        // "
  let _ ← upTo '\n'
  exact "        $f = new \\DrSlump\\Protobuf\\Field();\n        $f->number    = "
  let number ← readNumber
  exact "\n        $f->name      = \""
  let name ← upTo '"'
  exact ";\n        $f->type      = "
  let type ← readCode
  exact "\n        $f->rule      = "
  let label ← readCode
  exact "\n"
  let reference ← optionally "        $f->reference" readReference
  let default ← optionally "        $f->default" (readDefault (isTextCode type))
  exact "        $descriptor->addField($f);\n\n"
  return { number, name, type, label, reference, default }

/-- Takes the property of a field. -/
def readProperty (m : FieldMetadata) : Reader FieldReading := do
  exact "    /** @var "
  let _ ← upTo '\n'
  exact ("    public $" ++ m.name ++ " = ")
  let initial ← readValue (isTextCode m.type && m.default.isSome && m.label != Label.repeated.code)
  exact "\n\n"
  return { m with initial }

end FieldMetadata

/-- What stands in a class between the statements about its fields and the properties. -/
def descriptorEnd : String :=
  "        foreach (self::$__extensions as $cb) \x7b\n" ++
    ("          $descriptor->addField($cb(), true);\n" ++
      "        \x7d\n\n" ++
      "        self::$__descriptor = $descriptor;\n" ++
      "      \x7d\n\n" ++
      "      return self::$__descriptor;\n" ++
      "    \x7d\n\n")

namespace FieldReading

open Reader

/-- Takes the class of a message up to its accessors. -/
def readClass : Reader (List FieldReading) := do
  let _ ← upTo '\n'
  exact "\n  class "
  let _ ← upTo ' '
  exact ("extends \\DrSlump\\Protobuf\\Message \x7b\n" ++ Php.descriptorPrelude)
  let _ ← upTo '\n'
  exact "\n"
  let fields ← many "        // " FieldMetadata.read
  exact descriptorEnd
  fields.mapM FieldMetadata.readProperty

/-- What the source of a message says about its fields. -/
def ofSource (source : String) : Option (List FieldReading) :=
  (readClass source.toList).map Prod.fst

end FieldReading

/-- What is to be read about a field, if the table resolves its reference. -/
def PackageTable.reading (t : PackageTable) (f : Field) : FieldReading where
  number := f.number
  name := f.name
  type := f.type.code
  label := f.label.code
  reference := f.reference?.map t.target
  default := f.defaultValue.map (Php.literal (t.valueType f))
  initial :=
    if f.label = .repeated then "array()"
    else (f.defaultValue.map (Php.literal (t.valueType f))).getD "null"

namespace FieldMetadata

open Reader Text

theorem reads_readNumber (n : Int) : Reads readNumber (toString n ++ ";") n := by
  have hstop : ';' ∉ (toString n).toList := (isInert_toString_int n).not_mem rfl
  rw [← String.append_empty (s := toString n ++ ";")]
  exact (reads_upTo hstop (by simp)).bind (reads_given (Int.toInt?_repr n))

theorem reads_readCode (n : Nat) : Reads readCode (toString n ++ ";") n := by
  have hstop : ';' ∉ (toString n).toList := (isInert_toString_nat n).not_mem rfl
  rw [← String.append_empty (s := toString n ++ ";")]
  exact (reads_upTo hstop (by simp)).bind (reads_given (Nat.toNat?_repr n))

theorem reads_readValue_quote (text : String) :
    Reads (readValue true) (Php.quote text ++ ";") (Php.quote text) :=
  (reads_quoted text).bind ((reads_exact ";").bind_pure _)

theorem reads_readValue {literal : String} (h : ';' ∉ literal.toList) :
    Reads (readValue false) (literal ++ ";") literal :=
  reads_upTo h (by simp)

theorem reads_readReference {target : Namespace} (h : target.HasWords) :
    Reads readReference ("        $f->reference = '" ++
      ("\\" ++ "\\".intercalate target.segments) ++ "';\n") target := by
  have hstop : '\'' ∉ ("\\".intercalate target.segments).toList := h.isInert.not_mem rfl
  have htext : "        $f->reference = '" ++ ("\\" ++ "\\".intercalate target.segments) ++ "';\n" =
      "        $f->reference = '\\" ++ (("\\".intercalate target.segments ++ "'") ++ ";\n") := by
    apply String.ext
    simp
  have hparse := Namespace.parse_toString fun s hs => (h s hs).isPlain
  rw [htext]
  refine (reads_exact _).bind ((reads_upTo hstop (by simp)).bind ?_)
  conv_rhs => rw [← hparse]
  exact (reads_exact ";\n").bind_pure _

theorem reads_readDefault {isText : Bool} {literal : String}
    (h : Reads (readValue isText) (literal ++ ";") literal) :
    Reads (readDefault isText) ("        $f->default   = " ++ literal ++ ";\n") literal := by
  have htext : "        $f->default   = " ++ literal ++ ";\n" =
      "        $f->default   = " ++ ((literal ++ ";") ++ "\n") := by
    apply String.ext
    simp
  rw [htext]
  exact (reads_exact _).bind (h.bind ((reads_exact "\n").bind_pure _))

theorem isTextCode_code (f : Field) : isTextCode f.type.code = f.holdsText := by
  rw [Field.holdsText]
  cases f.type <;> rfl

theorem quote_of_isWord {name : String} (h : IsWord name) : Php.quote name = "\"" ++ name ++ "\"" := by
  have hchars : Php.escapeChars name.toList = name.toList := by
    conv_rhs => rw [← List.flatMap_singleton' name.toList]
    refine List.flatMap_congr fun c hc => ?_
    rw [Php.escapeChar, if_neg]
    intro hescape
    rw [Php.needsEscape, Bool.or_eq_true, Bool.or_eq_true, beq_iff_eq, beq_iff_eq, beq_iff_eq]
      at hescape
    rcases hescape with (rfl | rfl) | rfl <;> exact absurd hc (h.not_mem rfl)
  apply String.ext
  rw [Php.toList_quote, hchars]
  simp

variable {t : PackageTable} {f : Field}

/-- A default value is read up to the semicolon behind it. -/
theorem reads_literal (htarget : ∀ target, (t.valueType f).target? = some target → target.HasWords)
    {text : String} (htext : f.holdsText = false → ';' ∉ text.toList) :
    Reads (readValue f.holdsText) (Php.literal (t.valueType f) text ++ ";")
      (Php.literal (t.valueType f) text) := by
  cases hf : f.holdsText with
  | true =>
    rw [PackageTable.literal_of_holdsText hf]
    exact reads_readValue_quote text
  | false =>
    refine reads_readValue fun hc => ?_
    rcases PackageTable.mem_literal hf htarget hc with hc | hc | hc
    · exact htext hf hc
    · cases hc
    · cases hc

/-- The line that names the class of a reference, if there is one. -/
def referenceLine : Option Namespace → String
  | some target =>
    "        $f->reference = '" ++ ("\\" ++ "\\".intercalate target.segments) ++ "';\n"
  | none => ""

/-- The line with the default value, if there is one. -/
def defaultLine : Option String → String
  | some value => "        $f->default   = " ++ value ++ ";\n"
  | none => ""

theorem referenceLine_some (target : Namespace) :
    referenceLine (some target) =
      "        $f->reference = '" ++ ("\\" ++ "\\".intercalate target.segments) ++ "';\n" := rfl

theorem defaultLine_some (value : String) :
    defaultLine (some value) = "        $f->default   = " ++ value ++ ";\n" := rfl

/-- The statements about a field, cut where the reader stops. -/
theorem metadataText_eq (hname : IsWord f.name) :
    (t.field f).metadataText 4 f.name ++ "        $descriptor->addField($f);\n\n" =
      "        // " ++ ((f.label.keyword ++ " " ++ (t.field f).schemaType ++ " " ++ f.name ++ " = " ++
          toString f.number ++ "\n") ++
        ("        $f = new \\DrSlump\\Protobuf\\Field();\n        $f->number    = " ++
          ((toString f.number ++ ";") ++ ("\n        $f->name      = \"" ++ ((f.name ++ "\"") ++
            (";\n        $f->type      = " ++ ((toString f.type.code ++ ";") ++
              ("\n        $f->rule      = " ++ ((toString f.label.code ++ ";") ++ ("\n" ++
                (referenceLine (t.valueType f).target? ++
                  (defaultLine (f.defaultValue.map (Php.literal (t.valueType f))) ++
                    "        $descriptor->addField($f);\n\n")))))))))))) := by
  have hmargin : Php.margin 4 = "        " := by decide
  have hquote : Php.quote f.name = "\"" ++ f.name ++ "\"" := quote_of_isWord hname
  -- The pieces of the reader are put together from those of the printer.
  have hcomment : "        // " = "        " ++ "// " := by decide
  have hnumber : "        $f = new \\DrSlump\\Protobuf\\Field();\n        $f->number    = " =
      "        " ++ "$f = new \\DrSlump\\Protobuf\\Field();\n" ++ "        " ++ "$f->number    = " := by
    decide
  have hnamed : "\n        $f->name      = \"" = "\n" ++ "        " ++ "$f->name      = " ++ "\"" := by
    decide
  have htype : ";\n        $f->type      = " = ";" ++ "\n" ++ "        " ++ "$f->type      = " := by
    decide
  have hrule : "\n        $f->rule      = " = "\n" ++ "        " ++ "$f->rule      = " := by decide
  have hreference : "        $f->reference = '" = "        " ++ "$f->reference = '" := by decide
  have hdefault : "        $f->default   = " = "        " ++ "$f->default   = " := by decide
  have hend : ";\n" = ";" ++ "\n" := by decide
  unfold Php.Field.metadataText Php.Field.default? Php.Field.tag
  dsimp only [PackageTable.field]
  simp only [hquote, hmargin, hcomment, hnumber, hnamed, htype, hrule, hend]
  cases (t.valueType f).target? <;> cases f.defaultValue <;>
    simp only [referenceLine_some, defaultLine_some, Option.map_some, Option.map_none, hreference,
      hdefault, hend, String.append_assoc, show referenceLine none = "" from rfl,
      show defaultLine none = "" from rfl]

/-- The statements about a field are read as its metadata. -/
theorem reads_read (hname : isIdentifier f.name = true) (htypes : ∀ r ∈ f.typeName, IsTypeName r)
    (htarget : ∀ target, (t.valueType f).target? = some target → target.HasWords)
    (hdefault : f.holdsText = false → ∀ d ∈ f.defaultValue, ';' ∉ d.toList) :
    Reads read ((t.field f).metadataText 4 f.name ++ "        $descriptor->addField($f);\n\n")
      (t.reading f).toFieldMetadata := by
  have hword := isWord_of_isIdentifier hname
  have hline : '\n' ∉ (f.label.keyword ++ " " ++ (t.field f).schemaType ++ " " ++ f.name ++ " = " ++
      toString f.number).toList :=
    Php.Field.not_mem_comment hword.isInert (PackageTable.isInert_schemaType htypes) rfl (by decide)
  have hreference : ReadsBefore "        $f->reference" (optionally "        $f->reference" readReference)
      (referenceLine (t.valueType f).target?) (t.valueType f).target? := by
    cases h : (t.valueType f).target? with
    | some target => exact (reads_readReference (htarget target h)).optionally ⟨_, by simp; rfl⟩
    | none => exact readsBefore_optionally_none _ _
  have hvalue : ReadsBefore "        $f->default"
      (optionally "        $f->default" (readDefault f.holdsText))
      (defaultLine (f.defaultValue.map (Php.literal (t.valueType f))))
      (f.defaultValue.map (Php.literal (t.valueType f))) := by
    cases h : f.defaultValue with
    | some d =>
      exact (reads_readDefault (reads_literal htarget fun hf => hdefault hf d h)).optionally
        ⟨_, by simp; rfl⟩
    | none => exact readsBefore_optionally_none _ _
  -- Behind a reference that is left out follows what cannot be taken for one.
  have hbehind : differ "        $f->reference".toList
      (defaultLine (f.defaultValue.map (Php.literal (t.valueType f))) ++
        "        $descriptor->addField($f);\n\n").toList = true := by
    cases f.defaultValue with
    | some d =>
      simp only [Option.map_some, defaultLine_some, String.toList_append]
      exact differ_append (differ_append (differ_append (by decide) _) _) _
    | none => exact (by decide : differ "        $f->reference".toList
        (defaultLine none ++ "        $descriptor->addField($f);\n\n").toList = true)
  rw [metadataText_eq hword]
  -- The comment is passed over; all that it says is said again.
  refine (reads_exact _).bind ((reads_upTo hline (by simp)).bind ?_)
  refine (reads_exact _).bind ((reads_readNumber f.number).bind ?_)
  refine (reads_exact _).bind ((reads_upTo (hword.not_mem rfl) (by simp)).bind ?_)
  refine (reads_exact _).bind ((reads_readCode f.type.code).bind ?_)
  refine (reads_exact _).bind ((reads_readCode f.label.code).bind ?_)
  refine (reads_exact _).bind (hreference.bind hbehind ?_)
  rw [isTextCode_code]
  refine hvalue.bind (by decide) ?_
  have hreading : (t.reading f).reference = (t.valueType f).target? :=
    (PackageTable.target?_valueType t f).symm
  rw [← hreading]
  exact (reads_exact _).bind_pure _

theorem render_property (t : PackageTable) (f : Field) :
    Php.render (Php.deepen 2 (t.field f).property) =
      "    /** @var " ++ ((((t.valueType f).docType ++
          if f.label = .repeated then "[] */" else " */") ++ "\n") ++
        (("    public $" ++ f.name ++ " = ") ++ (((t.reading f).initial ++ ";") ++ "\n\n"))) := by
  have hlines : ∀ a b : String, a ≠ "" → b ≠ "" → Php.render (Php.deepen 2 (Php.lines [a, b, ""])) =
      "    " ++ a ++ "\n" ++ "    " ++ b ++ "\n" ++ "\n" := by
    intro a b ha hb
    have hsplit : Php.lines [a, b, ""] = Php.lines [a, b] ++ Php.blank := rfl
    rw [hsplit, Php.deepen_append, Php.render_append, Php.render_deepen_blank,
      Php.render_deepen_lines 2 (by simp [ha, hb])]
    apply String.ext
    simp [Php.margin]
  have hinitial : (t.reading f).initial = if f.label = .repeated then "array()"
    else (f.defaultValue.map (Php.literal (t.valueType f))).getD "null" := rfl
  rw [Php.Field.property, hinitial]
  by_cases h : f.label = .repeated
  · have hrepeated : (t.field f).isRepeated = true := decide_eq_true h
    rw [if_pos hrepeated, hlines _ _ (by simp [String.append_eq_empty_iff])
      (by simp [String.append_eq_empty_iff]), if_pos h, if_pos h]
    apply String.ext
    simp [PackageTable.field, Php.Field.name]
  · have hsingular : ¬(t.field f).isRepeated = true := fun e => h (of_decide_eq_true e)
    rw [if_neg hsingular, hlines _ _ (by simp [String.append_eq_empty_iff])
      (by simp [String.append_eq_empty_iff]), if_neg h, if_neg h]
    apply String.ext
    simp [PackageTable.field, Php.Field.name, Php.Field.default?]

/-- The property of a field is read with its initial value. -/
theorem reads_readProperty
    (htarget : ∀ target, (t.valueType f).target? = some target → target.HasWords)
    (hdefault : f.holdsText = false → ∀ d ∈ f.defaultValue, ';' ∉ d.toList) :
    Reads (readProperty (t.reading f).toFieldMetadata)
      (Php.render (Php.deepen 2 (t.field f).property)) (t.reading f) := by
  have hline : '\n' ∉ ((t.valueType f).docType ++
      if f.label = .repeated then "[] */" else " */").toList := by
    rw [String.toList_append, List.mem_append]
    rintro (hc | hc)
    · exact (Php.ValueType.isInert_docType htarget).not_mem rfl hc
    · split at hc <;> simp at hc
  have hvalue : Reads
      (readValue (isTextCode f.type.code && (t.reading f).default.isSome &&
        f.label.code != Label.repeated.code))
      ((t.reading f).initial ++ ";") (t.reading f).initial := by
    have hdefault? : (t.reading f).default = f.defaultValue.map (Php.literal (t.valueType f)) := rfl
    have hinitial : (t.reading f).initial =
      if f.label = .repeated then "array()" else (t.reading f).default.getD "null" := rfl
    -- The initial value is a quoted text if the field is a text, has a default and does not repeat.
    by_cases h : f.label = .repeated
    · rw [hinitial, if_pos h, h, bne_self_eq_false, Bool.and_false]
      exact reads_readValue (by decide)
    · have hcode : (f.label.code != Label.repeated.code) = true := by
        cases hlabel : f.label <;> first | rfl | exact absurd hlabel h
      rw [hinitial, if_neg h, hcode, Bool.and_true, isTextCode_code, hdefault?]
      cases hd : f.defaultValue with
      | none =>
        rw [Option.map_none, Option.isSome_none, Bool.and_false]
        exact reads_readValue (by decide)
      | some d =>
        rw [Option.map_some, Option.isSome_some, Bool.and_true]
        exact reads_literal htarget fun hf => hdefault hf d hd
  rw [render_property]
  refine (reads_exact _).bind ((reads_upTo hline (by simp)).bind ?_)
  refine (reads_exact _).bind (hvalue.bind ?_)
  exact (reads_exact _).bind_pure _

end FieldMetadata

theorem no_break_namespaceLine {ns : Namespace} (h : ns.HasWords) :
    '\n' ∉ (Php.namespaceLine ns).toList := by
  have hname : '\n' ∉ ("\\".intercalate ns.segments).toList := h.isInert.not_mem rfl
  rw [Php.namespaceLine]
  split
  · decide
  · rw [String.toList_append, String.toList_append, List.mem_append, List.mem_append]
    rintro ((hc | hc) | hc)
    · simp at hc
    · exact hname hc
    · simp at hc

/-- The statements that put a field into the descriptor of its message. -/
def statementsText (t : PackageTable) (f : Field) : String :=
  (t.field f).metadataText 4 f.name ++ "        $descriptor->addField($f);\n\n"

theorem render_addFieldCode (t : PackageTable) (f : Field) :
    Php.render (Php.deepen 4 (Php.addFieldCode (t.field f))) = statementsText t f := by
  have hlines : Php.render (Php.deepen 4 (Php.lines ["$descriptor->addField($f);", ""])) =
      "        $descriptor->addField($f);\n\n" := by decide +kernel
  rw [Php.addFieldCode, Php.deepen_append, Php.render_append, Php.Field.render_metadata, hlines]
  rfl

/-- The class of a message up to its accessors, cut where the reader stops. -/
def classText (t : PackageTable) (ns : Namespace) (name : String) (fields : List Field) : String :=
  (Php.namespaceLine ns ++ "\n") ++ ("\n  class " ++ ((name ++ " ") ++
    (("extends \\DrSlump\\Protobuf\\Message \x7b\n" ++ Php.descriptorPrelude) ++
      ((("        " ++ Php.descriptorStatement (ns.child name)) ++ "\n") ++ ("\n" ++
        (String.join (fields.map (statementsText t)) ++ (descriptorEnd ++
          String.join (fields.map fun f => Php.render (Php.deepen 2 (t.field f).property)))))))))

theorem render_messageCode_eq (t : PackageTable) (ns : Namespace) (name : String)
    (fields : List Field) :
    ∃ rest, Php.render (Php.messageCode ns name (fields.map t.field)) =
      classText t ns name fields ++ rest := by
  have hend : Php.render (Php.deepen 2 (Php.descriptorClosing ++ Php.blank)) = descriptorEnd := by
    decide +kernel
  have hfields : Php.render (Php.deepen 2 (Php.deepen 2 ((fields.map t.field).flatMap
      Php.addFieldCode))) = String.join (fields.map (statementsText t)) := by
    rw [Php.deepen_deepen, show 2 + 2 = 4 from rfl, Php.deepen_flatMap, Php.render_flatMap,
      List.map_map]
    refine congrArg String.join (List.map_congr_left fun f _ => ?_)
    rw [Function.comp_apply, render_addFieldCode]
  have hproperties : Php.render (Php.deepen 2 ((fields.map t.field).flatMap Php.Field.property)) =
      String.join (fields.map fun f => Php.render (Php.deepen 2 (t.field f).property)) := by
    rw [Php.deepen_flatMap, Php.render_flatMap, List.map_map]
    rfl
  have hfirst : ∀ code : Php.Code, Php.render (Php.deepen 2 (⟨2, ""⟩ :: code)) =
      "\n" ++ Php.render (Php.deepen 2 code) := by
    intro code
    have hcons : Php.deepen 2 (⟨2, ""⟩ :: code) = ⟨4, ""⟩ :: Php.deepen 2 code := rfl
    have hblank : (⟨4, ""⟩ : Php.Line).render = "\n" := by decide
    rw [hcons, Php.render_cons, hblank]
  have hopening : "\n\n" = "\n" ++ "\n" := by decide
  have hclass : "\n  class " = "\n" ++ "  class " := by decide
  have hextends : " extends \\DrSlump\\Protobuf\\Message \x7b" =
      " " ++ "extends \\DrSlump\\Protobuf\\Message \x7b" := by decide
  have hextendsLine : "extends \\DrSlump\\Protobuf\\Message \x7b\n" =
      "extends \\DrSlump\\Protobuf\\Message \x7b" ++ "\n" := by decide
  unfold classText
  rw [Php.render_messageCode, Php.members, hfirst, ← hend, Php.messageHead]
  simp only [Php.deepen_append, Php.render_append, hfields, hproperties, hopening, hclass, hextends,
    hextendsLine, String.append_assoc]
  exact ⟨_, rfl⟩

open Reader Text

/-- The class of a message is read up to its accessors. -/
theorem ofSource_messageCode {t : PackageTable} {ns : Namespace} (hns : ns.HasWords) {m : Message}
    (hm : m.HasIdentifiers)
    (htarget : ∀ f ∈ m.fields, ∀ target, (t.valueType f).target? = some target → target.HasWords)
    (hdefaults : ∀ f ∈ m.fields, f.holdsText = false → ∀ d ∈ f.defaultValue, ';' ∉ d.toList) :
    FieldReading.ofSource (Php.render (Php.messageCode ns m.name (m.fields.map t.field))) =
      some (m.fields.map t.reading) := by
  have hname := isWord_of_isIdentifier hm.name
  have hstatement : '\n' ∉ ("        " ++ Php.descriptorStatement (ns.child m.name)).toList := by
    have howner : '\n' ∉ (Php.absolute (ns.child m.name)).toList :=
      (hns.child hname).isInert_absolute.not_mem rfl
    rw [Php.descriptorStatement_eq]
    simpa using howner
  have hfields : ∀ f ∈ m.fields, "        // ".toList <+: (statementsText t f).toList ∧
      Reads FieldMetadata.read (statementsText t f) (t.reading f).toFieldMetadata := by
    intro f hf
    refine ⟨?_, FieldMetadata.reads_read (hm.fields f hf) (hm.types f hf) (htarget f hf)
      (hdefaults f hf)⟩
    rw [statementsText, FieldMetadata.metadataText_eq (isWord_of_isIdentifier (hm.fields f hf)),
      String.toList_append]
    exact List.prefix_append _ _
  have hbehind : differ "        // ".toList (descriptorEnd ++
      String.join (m.fields.map fun f => Php.render (Php.deepen 2 (t.field f).property))).toList =
        true := by
    unfold descriptorEnd
    rw [String.append_assoc, String.toList_append]
    exact differ_append (by decide) _
  have hread : Reads FieldReading.readClass (classText t ns m.name m.fields)
      (m.fields.map t.reading) := by
    unfold classText FieldReading.readClass
    refine (reads_upTo (no_break_namespaceLine hns) (by simp)).bind ?_
    refine (reads_exact _).bind ((reads_upTo (hname.not_mem rfl) (by simp)).bind ?_)
    refine (reads_exact _).bind ((reads_upTo hstatement (by simp)).bind ?_)
    refine (reads_exact _).bind ((readsBefore_many (by decide) hfields).bind hbehind ?_)
    refine (reads_exact _).bind (reads_mapM fun f hf => ?_)
    exact FieldMetadata.reads_readProperty (htarget f hf) (hdefaults f hf)
  obtain ⟨rest, htext⟩ := render_messageCode_eq t ns m.name m.fields
  rw [FieldReading.ofSource, htext, String.toList_append, hread]
  rfl

/-- The unit of a message can be read: all names are identifiers, and no default value but a text has a
semicolon. -/
structure SourceUnit.IsLegible (t : PackageTable) (m : Message) (u : SourceUnit) : Prop
    extends u.IsNamed t m where
  defaults : ∀ f ∈ m.fields, f.holdsText = false → ∀ d ∈ f.defaultValue, ';' ∉ d.toList

/-- The fields of a message can be read off the source of its unit, each with the class that its
reference is resolved to.  So units with the same source are printed for messages whose fields say the
same. -/
theorem fields_of_source {t : PackageTable} {m : Message} {u : SourceUnit} (h : u.IsLegible t m) :
    FieldReading.ofSource u.source = some (m.fields.map t.reading) ∧
      (∀ f ∈ m.fields, ∀ r ∈ f.reference?, ∃ warnings, t.resolve r = .ok ⟨t.target r, warnings⟩) ∧
      ∀ (t' : PackageTable) (m' : Message) (u' : SourceUnit), u'.IsLegible t' m' →
        u'.source = u.source → m'.fields.map t'.reading = m.fields.map t.reading := by
  have hread : ∀ {t : PackageTable} {m : Message} {u : SourceUnit}, u.IsLegible t m →
      FieldReading.ofSource u.source = some (m.fields.map t.reading) := by
    intro t m u h
    rw [SourceUnit.source, h.printed.code_eq]
    exact ofSource_messageCode h.hasWords_scope h.message (fun f hf _ => h.hasWords_target hf)
      h.defaults
  refine ⟨hread h, h.resolve_reference, ?_⟩
  intro t' m' u' h' hsource
  have hread' := hread h'
  rw [hsource, hread h] at hread'
  exact (Option.some.inj hread').symm

/-- A text that looks like the statements about another field, a reference with a default value, a
repeated field, and a group without a reference. -/
theorem fields_of_source_imitating_code :
    let text := "\";\n        $descriptor->addField($f);\n\n        // optional string x = 2\n"
    let m : Message :=
      { name := "Note"
        fields := [{ name := "text", number := 1, type := .string, defaultValue := some text },
          { name := "kind", number := 2, label := .required, type := .enum
            typeName := some ".shop.Kind", defaultValue := some "OPEN" },
          { name := "tags", number := -3, label := .repeated, type := .int32
            defaultValue := some "7" },
          { name := "part", number := 4, type := .group }] }
    let table := PackageTable.ofList [("shop", .parse "App.Shop")]
    ∃ u : SourceUnit, u.IsLegible table m ∧ FieldReading.ofSource u.source = some [
      ⟨⟨1, "text", 9, 1, none, some (Php.quote text)⟩, Php.quote text⟩,
      ⟨⟨2, "kind", 14, 2, some ⟨["App", "Shop", "Kind"]⟩, some "\\App\\Shop\\Kind::OPEN"⟩,
        "\\App\\Shop\\Kind::OPEN"⟩,
      ⟨⟨-3, "tags", 5, 3, none, some "7"⟩, "array()"⟩,
      ⟨⟨4, "part", 10, 1, none, none⟩, "null"⟩] := by
  intro text m table
  have hprinted := SourceUnit.isOf_ofDeclaration table { messages := [m] }
    { namespaceText := some "App" } (by decide) 0 [] m rfl
  have htype : IsTypeName ".shop.Kind" := ⟨["shop", "Kind"], by simp, by decide, by decide⟩
  have hlegible : SourceUnit.IsLegible table m _ :=
    { printed := hprinted
      table := by decide
      scope := by decide
      message :=
        { name := by decide
          fields := by decide
          types := by
            intro f hf r hr
            have hkind : ∀ f ∈ m.fields, f.typeName = none ∨ f.typeName = some ".shop.Kind" := by
              decide
            rcases hkind f hf with hnone | hsome
            · rw [hnone] at hr
              cases hr
            · rw [hsome] at hr
              cases hr
              exact htype }
      defaults := by decide }
  exact ⟨_, hlegible, (fields_of_source hlegible).1.trans (by decide)⟩

end ProtoPhp
