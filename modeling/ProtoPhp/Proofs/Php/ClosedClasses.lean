/-
Enums, classes and registrations are closed.

Every line that is printed for a type or an extension is closed for one of a few
reasons: it is a comment, it has no mark and no brace, or it opens or closes a block.
The lines that have literals are those about fields, and how many literals stand in
them depends on the reference and on the default value of the field.

* `Php.Field.DefaultLexes` — a default value that is printed as closed text;
* `Php.Field.printsClosed_metadata`, `Php.Field.printsClosed_property`,
  `Php.Field.printsClosed_accessors` — what is printed for a field;
* `Php.isClosedSource_enumCode`, `Php.isClosedSource_messageCode`,
  `Php.isClosedSource_registrationsCode` — the three kinds of source.
-/
import ProtoPhp.Proofs.Accessors
import ProtoPhp.Proofs.Php.ClosedCode

namespace ProtoPhp.Php

open Text

namespace Field

/-- The default value, if there is one, is closed text with some literals. -/
def DefaultLexes (f : Field) (texts : List Lexeme) : Prop :=
  match f.default? with
  | some value => LexesClosed value texts
  | none => texts = []

/-- The literals in the statements that build the metadata object of a field: its name, its class and
those of its default value. -/
def metadataLiterals (f : Field) (name : String) (texts : List Lexeme) : List Lexeme :=
  textLexeme name :: ((f.type.target?.map classLexeme).toList ++ texts)

/-- The literals in the property of a field. -/
def propertyLiterals (f : Field) (texts : List Lexeme) : List Lexeme :=
  if f.isRepeated then [] else texts

variable {f : Field} {texts : List Lexeme}

theorem printsClosed_comment {name : String} (hname : IsInert name) (hschema : IsInert f.schemaType) :
    PrintsClosed (lines ["// " ++ f.descriptor.label.keyword ++ " " ++ f.schemaType ++ " " ++ name ++
      " = " ++ f.tag]) [] := by
  have hmark : "// " = "//" ++ " " := by decide
  have hbreak := not_mem_comment hname hschema (c := '\n') rfl (by decide)
  have hquestion := not_mem_comment hname hschema (c := '?') rfl (by decide)
  have hcomment := printsClosed_lineComment
    (" " ++ (f.descriptor.label.keyword ++ " " ++ f.schemaType ++ " " ++ name ++ " = " ++ f.tag))
    (by simpa using hbreak) (by simpa using hquestion)
  rw [hmark]
  simpa only [String.append_assoc] using hcomment

/-- The statement that names the class of a field. -/
theorem printsClosed_reference (h : f.IsTame) :
    PrintsClosed (lines (f.type.target?.map fun target =>
      "$f->reference = '" ++ absolute target ++ "';").toList) (f.type.target?.map classLexeme).toList := by
  have htargets := h.targets
  cases htarget : f.type.target? with
  | none => exact printsClosed_nil
  | some target =>
    obtain ⟨hwords, hne⟩ := htargets target htarget
    have hstatement := printsClosed_statement "$f->reference = " String.toList_ofList (by decide)
      isFlat_semicolon (lexesClosed_className hwords hne)
    have hmark : "$f->reference = '" = "$f->reference = " ++ "'" := by decide
    have hend : "';" = "'" ++ ";" := by decide
    rw [Option.map_some, Option.map_some, Option.toList_some, Option.toList_some, hmark, hend]
    simpa only [String.append_assoc] using hstatement

/-- The statement that gives the default value of a field. -/
theorem printsClosed_default (hdefault : f.DefaultLexes texts) :
    PrintsClosed (lines (f.default?.map fun value => "$f->default   = " ++ value ++ ";").toList)
      texts := by
  unfold DefaultLexes at hdefault
  split at hdefault
  · rename_i value hvalue
    rw [hvalue]
    exact printsClosed_statement "$f->default   = " String.toList_ofList (by decide) isFlat_semicolon
      hdefault
  · rename_i hvalue
    rw [hvalue, hdefault]
    exact printsClosed_nil

/-- The statements about a field are closed, whatever its default value says. -/
theorem printsClosed_metadata (h : f.IsTame) {name : String} (hname : IsInert name)
    (hdefault : f.DefaultLexes texts) :
    PrintsClosed (f.metadata name) (f.metadataLiterals name texts) := by
  have hint : ∀ n : Int, LexesClosed (toString n) [] := fun n =>
    lexesClosed_flat (isFlat_of_isInert (isInert_toString_int n))
  have hnat : ∀ n : Nat, LexesClosed (toString n) [] := fun n =>
    lexesClosed_flat (isFlat_of_isInert (isInert_toString_nat n))
  have hlines : ∀ (a b c d e g : String) (rest rest' : List String),
      lines ([a, b, c, d, e, g] ++ rest ++ rest') =
        lines [a] ++ (lines [b] ++ (lines [c] ++ (lines [d] ++ (lines [e] ++ (lines [g] ++
          (lines rest ++ lines rest')))))) := by
    intros
    simp [lines]
  rw [metadata, hlines, metadataLiterals]
  refine (printsClosed_comment hname h.schema).append ?_
  refine (printsClosed_words "$f = new \\DrSlump\\Protobuf\\Field();" String.toList_ofList
    (by decide)).append ?_
  refine (printsClosed_statement "$f->number    = " String.toList_ofList (by decide)
    isFlat_semicolon (hint f.descriptor.number)).append ?_
  refine (printsClosed_statement "$f->name      = " String.toList_ofList (by decide)
    isFlat_semicolon (lexesClosed_quote name)).append ?_
  refine (printsClosed_statement "$f->type      = " String.toList_ofList (by decide)
    isFlat_semicolon (hnat _)).append ?_
  refine (printsClosed_statement "$f->rule      = " String.toList_ofList (by decide)
    isFlat_semicolon (hnat _)).append ?_
  exact (printsClosed_reference h).append (printsClosed_default hdefault)

/-- A property with its comment. -/
theorem printsClosed_declaration (doc : String) {name value : String} (hdoc : '/' ∉ doc.toList)
    (hname : IsInert name) (hvalue : LexesClosed value texts) :
    PrintsClosed (lines ["/** @var " ++ doc ++ " */", "public $" ++ name ++ " = " ++ value ++ ";", ""])
      texts := by
  have hmark : "/** @var " = "/*" ++ "* @var " := by decide
  have hend : " */" = " " ++ "*/" := by decide
  have hequals : IsFlat " = " := by decide
  have hlines : ∀ a b : String, lines [a, b, ""] = lines [a] ++ (lines [b] ++ blank) := fun _ _ => rfl
  have hcomment := printsClosed_line (lexesClosed_blockComment ("* @var " ++ doc ++ " ")
    (by simpa using hdoc))
  have hstatement := printsClosed_statement "public $" String.toList_ofList (by decide) isFlat_semicolon
    ((lexesClosed_flat ((isFlat_of_isInert hname).append hequals)).append hvalue)
  have hall := hcomment.append (hstatement.append printsClosed_blank)
  rw [List.nil_append, List.nil_append, List.append_nil] at hall
  rw [hlines, hmark, hend]
  simpa only [String.append_assoc] using hall

/-- The property of a field is closed, and it has the literals of the default value unless the field
repeats. -/
theorem printsClosed_property (h : f.IsTame) (hdefault : f.DefaultLexes texts) :
    PrintsClosed f.property (f.propertyLiterals texts) := by
  have hdoc : '/' ∉ f.type.docType.toList := h.isInert_docType.not_mem rfl
  have hflat : ∀ s : String, IsFlat s → LexesClosed s [] := fun _ => lexesClosed_flat
  rw [property, propertyLiterals]
  split
  · have hend : "[] */" = "[]" ++ " */" := by decide
    have harray : " = array();" = " = " ++ "array()" ++ ";" := by decide
    have hproperty := printsClosed_declaration (f.type.docType ++ "[]") (by simpa using hdoc)
      h.name.isInert (hflat "array()" (by decide))
    rw [hend, harray]
    simpa only [String.append_assoc] using hproperty
  · unfold DefaultLexes at hdefault
    split at hdefault
    · rename_i value hvalue
      rw [hvalue]
      exact printsClosed_declaration _ hdoc h.name.isInert hdefault
    · rename_i hvalue
      rw [hvalue, hdefault]
      exact printsClosed_declaration _ hdoc h.name.isInert (hflat "null" (by decide))

end Field

/-- A method whose documentation and declaration are regular is closed. -/
theorem Method.printsClosed_code {m : Method} (h : m.IsRegular) : PrintsClosed m.code [] := by
  have hdoc := printsClosed_blockComment "*" " " h.docLines (by decide) (by decide)
  have hreturn : IsFlat "return $this->" := isFlat_of_all String.toList_ofList (by decide)
  have hstatement := printsClosed_flat (m.statement ++ ";")
    ((hreturn.append h.call.isFlat).append isFlat_semicolon)
  have hbody := hstatement.block _ _ rfl h.isQuietText_declaration.isFlat
  rw [Method.code_eq, Method.docCode_eq]
  exact (hdoc.append hbody).append printsClosed_blank

/-- The accessors of a field have no literals. -/
theorem Field.printsClosed_accessors {f : Field} (h : f.IsTame) {owner : Namespace}
    (howner : owner.HasWords) : PrintsClosed ((f.accessors owner).flatMap Method.code) [] := by
  have hmethods := printsClosed_flatMap fun m hm =>
    Method.printsClosed_code (h.isRegular_of_mem howner hm)
  rwa [List.flatMap_eq_nil_iff.mpr fun _ _ => rfl] at hmethods

theorem printsClosed_classHeader : PrintsClosed classHeader [] := by
  have hstatic := printsClosed_words "protected static $__descriptor;" String.toList_ofList (by decide)
  have hextensions := printsClosed_words "protected static $__extensions = array();"
    String.toList_ofList (by decide)
  have hdescriptor := printsClosed_line (lexesClosed_blockComment
    "* @var \\DrSlump\\Protobuf\\Descriptor " (by decide))
  have hclosures := printsClosed_line (lexesClosed_blockComment "* @var \\Closure[] " (by decide))
  exact printsClosed_blank.append (hdescriptor.append (hstatic.append (hclosures.append
    (hextensions.append printsClosed_blank))))

section Classes

variable {fields : List Field} {texts : Field → List Lexeme}

/-- The statements that put the fields into the descriptor have the literals of the fields. -/
theorem printsClosed_addFieldCode
    (h : ∀ f ∈ fields, f.IsTame ∧ f.DefaultLexes (texts f)) :
    PrintsClosed (fields.flatMap addFieldCode)
      (fields.flatMap fun f => f.metadataLiterals f.name (texts f)) := by
  have hadd := printsClosed_words "$descriptor->addField($f);" String.toList_ofList (by decide)
  refine printsClosed_flatMap fun f hf => ?_
  have hmetadata := Field.printsClosed_metadata (h f hf).1 (h f hf).1.name.isInert (h f hf).2
  have hall := hmetadata.append (hadd.append printsClosed_blank)
  rwa [List.nil_append, List.append_nil] at hall

theorem printsClosed_descriptorStatement {owner : Namespace} (howner : owner.HasWords)
    (hne : owner ≠ .root) : PrintsClosed (lines [descriptorStatement owner]) [classLexeme owner] := by
  have hmark : "$descriptor = new \\DrSlump\\Protobuf\\Descriptor('" =
      "$descriptor = new \\DrSlump\\Protobuf\\Descriptor(" ++ "'" := by decide
  have hend : "');" = "'" ++ ");" := by decide
  have hback : IsFlat ");" := by decide
  have hstatement := printsClosed_statement "$descriptor = new \\DrSlump\\Protobuf\\Descriptor("
    String.toList_ofList (by decide) hback (lexesClosed_className howner hne)
  rw [descriptorStatement_eq, hmark, hend]
  simpa only [String.append_assoc] using hstatement

/-- The method for the descriptor has the name of the class and the literals of the fields. -/
theorem printsClosed_descriptorCode {owner : Namespace} (howner : owner.HasWords)
    (hne : owner ≠ .root) (h : ∀ f ∈ fields, f.IsTame ∧ f.DefaultLexes (texts f)) :
    PrintsClosed (descriptorCode owner fields)
      (classLexeme owner :: fields.flatMap fun f => f.metadataLiterals f.name (texts f)) := by
  have hreturn := printsClosed_words "return self::$__descriptor;" String.toList_ofList (by decide)
  have hset := printsClosed_words "self::$__descriptor = $descriptor;" String.toList_ofList (by decide)
  have hcall := printsClosed_words "$descriptor->addField($cb(), true);" String.toList_ofList (by decide)
  have hdeclaration := printsClosed_words
    "public static function descriptor(\\DrSlump\\Protobuf\\Descriptor $descriptor = NULL)"
    String.toList_ofList (by decide)
  have hflat : IsFlat "if (NULL !== $descriptor) " ∧ IsFlat "foreach (self::$__extensions as $cb) " ∧
      IsFlat "if (!self::$__descriptor) " := by
    refine ⟨?_, ?_, ?_⟩ <;> exact isFlat_of_all String.toList_ofList (by decide)
  have hgiven := (hset.append hreturn).block "if (NULL !== $descriptor) \x7b" _ (by decide) hflat.1
  have hloop := hcall.block "foreach (self::$__extensions as $cb) \x7b" _ (by decide) hflat.2.1
  have hmade := (((((printsClosed_descriptorStatement howner hne).append printsClosed_blank).append
    (printsClosed_addFieldCode h)).append hloop).append (printsClosed_blank.append hset)).block
    "if (!self::$__descriptor) \x7b" _ (by decide) hflat.2.2
  have hbody := (((hgiven.append printsClosed_blank).append hmade).append
    (printsClosed_blank.append hreturn)).block "\x7b" "" (by decide) (by decide)
  have hall := hdeclaration.append hbody
  simp only [List.nil_append, List.append_nil, List.singleton_append] at hall
  exact hall

/-- What stands in front of the brace that opens a namespace. -/
def namespaceWords (ns : Namespace) : String :=
  if ns.isRoot then "namespace " else "namespace " ++ toString ns ++ " "

theorem namespaceBlock_eq (ns : Namespace) (body : Code) :
    namespaceBlock ns body = block (namespaceWords ns ++ "\x7b") (blank ++ body) := by
  have hend : " \x7b" = " " ++ "\x7b" := by decide
  have hroot : "namespace \x7b" = "namespace " ++ "\x7b" := by decide
  rw [namespaceBlock, namespaceWords]
  split
  · rw [hroot]
  · rw [hend, ← String.append_assoc]

theorem isFlat_namespaceWords {ns : Namespace} (h : ns.HasWords) : IsFlat (namespaceWords ns) := by
  have hspace : IsFlat " " := by decide
  have hword : IsFlat "namespace " := by decide
  rw [namespaceWords]
  split
  · exact hword
  · exact (hword.append (isFlat_of_isInert h.isInert)).append hspace

/-- A namespace with closed code in it is a source of its own. -/
theorem isClosedSource_namespaceBlock {ns : Namespace} (hns : ns.HasWords) {body : Code}
    {literals : List Lexeme} (h : PrintsClosed body literals) :
    IsClosedSource (render (namespaceBlock ns body)) (namespaceWords ns) literals := by
  rw [namespaceBlock_eq]
  exact (printsClosed_blank.append h).isClosedSource (isFlat_namespaceWords hns)

/-- A class with closed code in it, with or without words behind its name. -/
theorem PrintsClosed.classBlock {body : Code} {literals : List Lexeme} (h : PrintsClosed body literals)
    {name : String} (hname : IsInert name) (tail : String) (htail : IsFlat tail) :
    PrintsClosed (Php.block ("class " ++ name ++ tail ++ "\x7b") body) literals := by
  have hclass : IsFlat "class " := by decide
  exact h.block _ _ rfl ((hclass.append (isFlat_of_isInert hname)).append htail)

theorem isClosedSource_enumCode {ns : Namespace} (hns : ns.HasWords) {e : Descriptor.Enum}
    (hname : IsWord e.name) (hvalues : ∀ v ∈ e.values, IsWord v.name) :
    IsClosedSource (render (enumCode ns e)) (namespaceWords ns) [] := by
  have hconst : IsFlat "const " := by decide
  have hequals : IsFlat " = " := by decide
  have hlines : PrintsClosed (lines (e.values.map fun v =>
      "const " ++ v.name ++ " = " ++ toString v.number ++ ";")) [] := by
    refine printsClosed_flats fun s hs => ?_
    obtain ⟨v, hv, rfl⟩ := List.mem_map.mp hs
    have hvalue := isFlat_of_isInert (hvalues v hv).isInert
    have hnumber := isFlat_of_isInert (isInert_toString_int v.number)
    exact (((hconst.append hvalue).append hequals).append hnumber).append isFlat_semicolon
  have hbrace : " \x7b" = " " ++ "\x7b" := by decide
  have hclass := hlines.classBlock hname.isInert " " (by decide)
  rw [String.append_assoc, ← hbrace] at hclass
  exact isClosedSource_namespaceBlock hns hclass

/-- The literals of a class: its name, those about its fields, and those of its properties. -/
theorem isClosedSource_messageCode {ns : Namespace} (hns : ns.HasWords) {name : String}
    (hname : IsWord name) (h : ∀ f ∈ fields, f.IsTame ∧ f.DefaultLexes (texts f)) :
    IsClosedSource (render (messageCode ns name fields)) (namespaceWords ns)
      (classLexeme (ns.child name) ::
        (fields.flatMap fun f => f.metadataLiterals f.name (texts f)) ++
          fields.flatMap fun f => f.propertyLiterals (texts f)) := by
  have howner := hns.child hname
  have hne : ns.child name ≠ .root := fun e =>
    List.append_ne_nil_of_right_ne_nil _ (List.cons_ne_nil _ _) (congrArg Namespace.segments e)
  have hdescriptor := printsClosed_descriptorCode howner hne h
  have hproperties := printsClosed_flatMap fun f hf => Field.printsClosed_property (h f hf).1 (h f hf).2
  have haccessors := printsClosed_flatMap fun f hf => Field.printsClosed_accessors (h f hf).1 howner
  rw [List.flatMap_eq_nil_iff.mpr fun _ _ => rfl] at haccessors
  have hmembers := ((((printsClosed_classHeader.append hdescriptor).append printsClosed_blank).append
    hproperties).append printsClosed_blank).append haccessors
  simp only [List.nil_append, List.append_nil] at hmembers
  have hbrace : " extends \\DrSlump\\Protobuf\\Message \x7b" =
      " extends \\DrSlump\\Protobuf\\Message " ++ "\x7b" := by decide
  have hclass := hmembers.classBlock hname.isInert " extends \\DrSlump\\Protobuf\\Message "
    (isFlat_of_all String.toList_ofList (by decide))
  rw [String.append_assoc, ← hbrace] at hclass
  exact isClosedSource_namespaceBlock hns hclass

/-- The call that registers an extension has the literals of the extension. -/
theorem printsClosed_registrationCode {f : Field} {texts : List Lexeme} (h : f.IsTame)
    (hdefault : f.DefaultLexes texts) {extended scope : Namespace} (hextended : extended.HasWords)
    (hname : IsInert (scope.child f.name).dotted) :
    PrintsClosed (registrationCode extended scope f)
      (f.metadataLiterals (scope.child f.name).dotted texts) := by
  have hreturn := printsClosed_words "return $f;" String.toList_ofList (by decide)
  have hcall : IsFlat "::extension(function()" := by decide
  have hbrace : "::extension(function()\x7b" = "::extension(function()" ++ "\x7b" := by decide
  have hend : "\x7d);" = "\x7d" ++ ");" := by decide
  have hback : IsFlat ");" := by decide
  have hbody := (Field.printsClosed_metadata h hname hdefault).append hreturn
  have hall := hbody.enclose ((isFlat_of_isInert hextended.isInert_absolute).append hcall) hback
  rw [List.append_nil] at hall
  rw [registrationCode, hbrace, hend, ← String.append_assoc]
  exact hall

theorem isClosedSource_registrationsCode {α : Type} {es : List α} {f : α → Code}
    {literals : α → List Lexeme} (h : ∀ e ∈ es, PrintsClosed (f e) (literals e)) :
    IsClosedSource (render (registrationsCode (es.map f))) (namespaceWords .root)
      (es.flatMap literals) := by
  have hroot : "namespace \x7b" = namespaceWords .root ++ "\x7b" := by decide
  rw [registrationsCode, ← List.flatMap_def, hroot]
  exact (printsClosed_flatMap h).isClosedSource (by decide)

end Classes

end ProtoPhp.Php
