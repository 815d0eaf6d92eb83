/-
Code without methods and calls.

Most of what is printed for a message is quiet: it declares no method, calls
nothing on `$this`, and its braces match.  This holds of closed lines by what they
say, and of lines around a name, a number or a literal because none of these can
hold an arrow or end a clause.

* `Php.ShowsQuiet` — the clauses of a piece of code are quiet, and nothing else is
  asked of them;
* `Php.showsQuiet_statement`, `Php.ShowsQuiet.block` — lines and blocks;
* `Php.showsQuiet_metadata`, `Php.showsQuiet_property` — what is printed for a field
  besides its accessors.
-/
import ProtoPhp.Proofs.Php.ClassHead
import ProtoPhp.Proofs.Php.Methods

namespace ProtoPhp.Php

open Text

/-- The clauses of a piece of code are quiet. -/
def ShowsQuiet (code : Code) : Prop := ∃ parts, Shows code parts ∧ IsQuiet parts

/-- A text that neither ends a clause nor makes a call. -/
def LooksQuiet (text : String) : Prop :=
  ∃ cs, LooksLike text cs ∧ ∀ c ∈ cs, isStop c = false ∧ c ≠ '>'

/-- A character that neither ends a clause nor makes a call, and stands for itself. -/
def isQuietChar (c : Char) : Bool := isPlainChar c && !isStop c && c != '>'

/-- A text that has quiet characters only. -/
def IsQuietText (text : String) : Prop := ∀ c ∈ text.toList, isQuietChar c = true

instance (text : String) : Decidable (IsQuietText text) :=
  inferInstanceAs (Decidable (∀ c ∈ text.toList, isQuietChar c = true))

/-- The start of a statement that makes no call. -/
def isQuietFront (cs : List Char) : Bool :=
  cs.all (fun c => isPlainChar c && !isStop c) && (callsIn cs).isEmpty

/-- A line up to its stop that makes no call. -/
def isQuietLine (stop : Char) (cs : List Char) : Bool :=
  isQuietFront cs.dropLast && cs.getLast? == some stop

theorem isQuietChar_of_isInertChar {c : Char} (h : isInertChar c = true) : isQuietChar c = true := by
  have hne : ∀ d, isInertChar d = false → c ≠ d := by
    rintro d hd rfl
    rw [hd] at h
    cases h
  have hplain : isPlainChar c = true := by
    rw [isPlainChar, decide_eq_true_eq]
    intro hmem
    have hall : ∀ d ∈ ['/', '#', '"', '\'', '?', '<', '`'], isInertChar d = false := by decide
    exact hne c (hall c hmem) rfl
  have hstop : isStop c = false := by
    rw [isStop, decide_eq_false_iff_not]
    intro hmem
    have hall : ∀ d ∈ [';', '\x7b', '\x7d'], isInertChar d = false := by decide
    exact hne c (hall c hmem) rfl
  rw [isQuietChar, hplain, hstop]
  simpa using hne '>' rfl

section IsQuietText

theorem isQuietText_of_all {text : String} {cs : List Char} (htext : text.toList = cs)
    (h : cs.all isQuietChar = true) : IsQuietText text := by
  intro c hc
  rw [htext] at hc
  exact List.all_eq_true.mp h c hc

theorem IsQuietText.append {a b : String} (ha : IsQuietText a) (hb : IsQuietText b) :
    IsQuietText (a ++ b) := by
  intro c hc
  rw [String.toList_append, List.mem_append] at hc
  exact hc.elim (ha c) (hb c)

theorem isQuietText_of_isInert {text : String} (h : IsInert text) : IsQuietText text :=
  fun c hc => isQuietChar_of_isInertChar (h c hc)

theorem IsQuietText.and {text : String} (h : IsQuietText text) {c : Char} (hc : c ∈ text.toList) :
    isPlainChar c = true ∧ isStop c = false ∧ c ≠ '>' := by
  simpa [isQuietChar, and_assoc] using h c hc

end IsQuietText

section LooksQuiet

variable {a b : String}

theorem LooksQuiet.append (ha : LooksQuiet a) (hb : LooksQuiet b) : LooksQuiet (a ++ b) := by
  obtain ⟨cs, hcs, hquiet⟩ := ha
  obtain ⟨ds, hds, hquiet'⟩ := hb
  exact ⟨cs ++ ds, hcs.append hds, fun c hc =>
    (List.mem_append.mp hc).elim (hquiet c) (hquiet' c)⟩

theorem looksQuiet_plain (h : ∀ c ∈ a.toList, isQuietChar c = true) : LooksQuiet a := by
  have hchar : ∀ c ∈ a.toList, isPlainChar c = true ∧ isStop c = false ∧ c ≠ '>' := by
    intro c hc
    simpa [isQuietChar, and_assoc] using h c hc
  exact ⟨_, looksLike_plain fun c hc => (hchar c hc).1, fun c hc => (hchar c hc).2⟩

theorem looksQuiet_of_isInert (h : IsInert a) : LooksQuiet a :=
  looksQuiet_plain fun c hc => isQuietChar_of_isInertChar (h c hc)

theorem looksQuiet_quote (text : String) : LooksQuiet (quote text) :=
  ⟨_, looksLike_quote text, by decide⟩

theorem looksQuiet_className {ns : Namespace} (h : ns.HasWords) (hne : ns ≠ .root) :
    LooksQuiet ("'" ++ absolute ns ++ "'") :=
  ⟨_, looksLike_className h hne, by decide⟩

end LooksQuiet

section ShowsQuiet

variable {code code' : Code}

theorem showsQuiet_nil : ShowsQuiet [] := ⟨[], shows_nil, isQuiet_nil⟩

theorem ShowsQuiet.append (h : ShowsQuiet code) (h' : ShowsQuiet code') :
    ShowsQuiet (code ++ code') := by
  obtain ⟨parts, hshows, hquiet⟩ := h
  obtain ⟨parts', hshows', hquiet'⟩ := h'
  exact ⟨parts ++ parts', hshows.append hshows', hquiet.append hquiet'⟩

theorem showsQuiet_flatMap {α : Type} {f : α → Code} {xs : List α} (h : ∀ x ∈ xs, ShowsQuiet (f x)) :
    ShowsQuiet (xs.flatMap f) := by
  induction xs with
  | nil => exact showsQuiet_nil
  | cons x xs ih =>
    rw [List.flatMap_cons]
    exact (h x List.mem_cons_self).append (ih fun y hy => h y (List.mem_cons_of_mem _ hy))

theorem showsQuiet_lines {texts : List String} (h : ∀ s ∈ texts, ShowsQuiet (lines [s])) :
    ShowsQuiet (lines texts) := by
  rw [lines_eq_flatMap]
  exact showsQuiet_flatMap h

theorem showsQuiet_blank : ShowsQuiet blank := ⟨[], shows_blank, isQuiet_nil⟩

theorem showsQuiet_lineComment (text : String) (h : '\n' ∉ text.toList) (hend : '?' ∉ text.toList) :
    ShowsQuiet (lines ["//" ++ text]) := ⟨[], shows_lineComment h hend, isQuiet_nil⟩

theorem showsQuiet_blockComment (text : String) (h : '/' ∉ text.toList) :
    ShowsQuiet (lines ["/*" ++ text ++ "*/"]) := by
  refine ⟨[], shows_line ?_ ⟨_, lexes_blockComment h, rfl⟩ (cuts_blanks (by decide)), isQuiet_nil⟩
  simp [String.append_eq_empty_iff]

theorem showsQuiet_of_looksLike {text : String} {cs : List Char} (h : LooksLike text (cs ++ [';']))
    (hstops : ∀ c ∈ cs, isStop c = false) (hcalls : callsIn cs = []) :
    ShowsQuiet (lines [text]) := by
  refine ⟨_, shows_clause h hstops (by decide), ?_, ?_, nested_of_stop (by simp) (by simp)⟩
  · intro c hc
    obtain rfl := List.mem_singleton.mp hc
    exact header?_of_stop (by simp)
  · intro c hc
    obtain rfl := List.mem_singleton.mp hc
    exact calls_trim hcalls _

theorem plain_of_all {cs : List Char} (h : cs.all (fun c => isPlainChar c && !isStop c) = true) :
    ∀ c ∈ cs, isPlainChar c = true ∧ isStop c = false := by
  intro c hc
  simpa using List.all_eq_true.mp h c hc

theorem of_isQuietFront {cs : List Char} (h : isQuietFront cs = true) :
    (∀ c ∈ cs, isPlainChar c = true ∧ isStop c = false) ∧ callsIn cs = [] := by
  rw [isQuietFront, Bool.and_eq_true, List.isEmpty_iff] at h
  exact ⟨plain_of_all h.1, h.2⟩

/-- What is seen of a line whose text is known. -/
theorem looksLike_of_isQuietLine {text : String} {cs : List Char} (htext : text.toList = cs)
    {stop : Char} (hstop : isPlainChar stop = true) (h : isQuietLine stop cs = true) :
    LooksLike text (cs.dropLast ++ [stop]) ∧ (∀ c ∈ cs.dropLast, isStop c = false) ∧
      callsIn cs.dropLast = [] := by
  rw [isQuietLine, Bool.and_eq_true, beq_iff_eq] at h
  obtain ⟨hchars, hcalls⟩ := of_isQuietFront h.1
  have hsplit : text.toList = cs.dropLast ++ [stop] := by
    rw [htext, List.dropLast_append_getLast? _ h.2]
  refine ⟨?_, fun c hc => (hchars c hc).2, hcalls⟩
  rw [← hsplit]
  refine looksLike_plain fun c hc => ?_
  rw [hsplit, List.mem_append, List.mem_singleton] at hc
  rcases hc with hc | rfl
  · exact (hchars c hc).1
  · exact hstop

theorem showsQuiet_closed {text : String} {cs : List Char} (htext : text.toList = cs)
    (h : isQuietLine ';' cs = true) : ShowsQuiet (lines [text]) := by
  obtain ⟨hlook, hstops, hcalls⟩ := looksLike_of_isQuietLine htext (by decide) h
  exact showsQuiet_of_looksLike hlook hstops hcalls

/-- A statement that starts in a known way and goes on in a quiet one. -/
theorem showsQuiet_statement (front : String) {text : String} {cs : List Char} (hfront : front.toList = cs)
    (h : isQuietFront cs = true) (htext : LooksQuiet text) :
    ShowsQuiet (lines [front ++ text ++ ";"]) := by
  obtain ⟨ds, hlook, hds⟩ := htext
  obtain ⟨hchars, hcalls⟩ := of_isQuietFront h
  have hplain : LooksLike front cs := by
    rw [← hfront]
    exact looksLike_plain fun c hc => (hchars c (hfront ▸ hc)).1
  refine showsQuiet_of_looksLike ((hplain.append hlook).append (looksLike_plain (by decide))) ?_ ?_
  · intro c hc
    exact (List.mem_append.mp hc).elim (fun hc => (hchars c hc).2) fun hc => (hds c hc).1
  · rw [callsIn_append _ fun hc => (hds _ hc).2 rfl, hcalls]
    rfl

/-- A block is quiet if what opens it starts no method and makes no call. -/
theorem ShowsQuiet.block (h : ShowsQuiet code) (word : String) {opening : String} {cs : List Char}
    (hopening : opening.toList = cs) (hquiet : isQuietLine '\x7b' cs = true)
    (hstart : word.toList ++ [' '] <+: trim cs.dropLast) (hword : IsWord word)
    (hother : isModifier word.toList = false ∧ word ≠ "function") :
    ShowsQuiet (Php.block opening code) := by
  obtain ⟨parts, hshows, hparts⟩ := h
  obtain ⟨hlook, hstops, hcalls⟩ := looksLike_of_isQuietLine hopening (by decide) hquiet
  refine ⟨_, hshows.block hlook hstops, ?_, ?_, hparts.nested.block _ _⟩
  · intro c hc
    simp only [List.mem_append, List.mem_cons, List.not_mem_nil, or_false] at hc
    rcases hc with (rfl | hc) | rfl
    · obtain ⟨tail, htail⟩ := hstart
      refine header?_of_first hword hother tail ?_
      rw [String.toList_ofList, ← htail]
      simp
    · exact hparts.headers c hc
    · exact header?_of_stop (by simp)
  · intro c hc
    simp only [List.mem_append, List.mem_cons, List.not_mem_nil, or_false] at hc
    rcases hc with (rfl | hc) | rfl
    · exact calls_trim hcalls _
    · exact hparts.calls c hc
    · rfl

end ShowsQuiet

section Fields

variable {f : Field}

/-- The statements about a field are quiet, whatever its default value says. -/
theorem showsQuiet_metadata {name : String} (hname : IsInert name) (hschema : IsInert f.schemaType)
    (htarget : ∀ target, f.type.target? = some target → target.HasWords ∧ target ≠ .root)
    (hdefault : ∀ value, f.default? = some value → LooksQuiet value) :
    ShowsQuiet (f.metadata name) := by
  -- One case for each line: the comment, the five statements that every field has, and the two that
  -- depend on the field.
  refine showsQuiet_lines fun s hs => ?_
  simp only [List.mem_append, List.mem_cons, List.not_mem_nil, or_false, Option.mem_toList,
    Option.map_eq_some_iff] at hs
  rcases hs with ((rfl | rfl | rfl | rfl | rfl | rfl) | ⟨target, htype, rfl⟩) | ⟨value, hvalue, rfl⟩
  · have hcomment := showsQuiet_lineComment
      (" " ++ (f.descriptor.label.keyword ++ " " ++ f.schemaType ++ " " ++ name ++ " = " ++ f.tag))
      (by simpa using Field.not_mem_comment hname hschema (c := '\n') rfl (by decide))
      (by simpa using Field.not_mem_comment hname hschema (c := '?') rfl (by decide))
    have hmark : "// " = "//" ++ " " := by decide
    rw [hmark]
    simpa only [String.append_assoc] using hcomment
  · exact showsQuiet_closed String.toList_ofList (by decide)
  · exact showsQuiet_statement _ String.toList_ofList (by decide)
      (looksQuiet_of_isInert (isInert_toString_int f.descriptor.number))
  · exact showsQuiet_statement _ String.toList_ofList (by decide) (looksQuiet_quote name)
  · exact showsQuiet_statement _ String.toList_ofList (by decide)
      (looksQuiet_of_isInert (isInert_toString_nat _))
  · exact showsQuiet_statement _ String.toList_ofList (by decide)
      (looksQuiet_of_isInert (isInert_toString_nat _))
  · obtain ⟨hwords, hne⟩ := htarget target htype
    have hmark : "$f->reference = '" = "$f->reference = " ++ "'" := by decide
    have hend : "';" = "'" ++ ";" := by decide
    have hstatement := showsQuiet_statement "$f->reference = "
      String.toList_ofList (by decide)
      (looksQuiet_className hwords hne)
    rw [hmark, hend]
    simpa only [String.append_assoc] using hstatement
  · exact showsQuiet_statement _ String.toList_ofList (by decide) (hdefault value hvalue)

/-- The property of a field is quiet, whatever its default value says. -/
theorem showsQuiet_property (hname : IsInert f.name) (hdoc : IsInert f.type.docType)
    (hdefault : ∀ value, f.default? = some value → LooksQuiet value) : ShowsQuiet f.property := by
  have hcomment : ∀ tail : String, '/' ∉ tail.toList →
      ShowsQuiet (lines ["/** @var " ++ f.type.docType ++ tail ++ "*/"]) := by
    intro tail htail
    have hmark : "/** @var " = "/*" ++ "* @var " := by decide
    have hblock := showsQuiet_blockComment ("* @var " ++ f.type.docType ++ tail)
      (by simpa using ⟨hdoc.not_mem rfl, htail⟩)
    rw [hmark]
    simpa only [String.append_assoc] using hblock
  have hproperty : ∀ value : String, LooksQuiet value →
      ShowsQuiet (lines ["public $" ++ f.name ++ " = " ++ value ++ ";"]) := by
    intro value hvalue
    have hquiet := ((looksQuiet_of_isInert hname).append (looksQuiet_plain (a := " = ") (by decide))).append
      hvalue
    have hstatement := showsQuiet_statement "public $" String.toList_ofList (by decide) hquiet
    simpa only [String.append_assoc] using hstatement
  rw [Field.property]
  split
  · refine showsQuiet_lines fun s hs => ?_
    simp only [List.mem_cons, List.not_mem_nil, or_false] at hs
    rcases hs with rfl | rfl | rfl
    · have hend : "[] */" = "[] " ++ "*/" := by decide
      rw [hend, ← String.append_assoc]
      exact hcomment "[] " (by decide)
    · have hend : " = array();" = " = " ++ "array()" ++ ";" := by decide
      have harray := hproperty "array()" (looksQuiet_plain (by decide))
      rw [hend]
      simpa only [String.append_assoc] using harray
    · exact showsQuiet_blank
  · refine showsQuiet_lines fun s hs => ?_
    simp only [List.mem_cons, List.not_mem_nil, or_false] at hs
    rcases hs with rfl | rfl | rfl
    · have hend : " */" = " " ++ "*/" := by decide
      rw [hend, ← String.append_assoc]
      exact hcomment " " (by decide)
    · cases hvalue : f.default? with
      | some value => exact hproperty value (hdefault value hvalue)
      | none => exact hproperty "null" (looksQuiet_plain (by decide))
    · exact showsQuiet_blank

end Fields

theorem showsQuiet_classHeader : ShowsQuiet classHeader := by
  refine showsQuiet_lines fun s hs => ?_
  simp only [List.mem_cons, List.not_mem_nil, or_false] at hs
  rcases hs with rfl | rfl | rfl | rfl | rfl | rfl
  · exact showsQuiet_blank
  · exact showsQuiet_blockComment "* @var \\DrSlump\\Protobuf\\Descriptor " (by decide)
  · exact showsQuiet_closed String.toList_ofList (by decide)
  · exact showsQuiet_blockComment "* @var \\Closure[] " (by decide)
  · exact showsQuiet_closed String.toList_ofList (by decide)
  · exact showsQuiet_blank

/-- How the method for the descriptor is declared. -/
def descriptorDeclaration : Clause :=
  ⟨"public static function descriptor(\\DrSlump\\Protobuf\\Descriptor $descriptor = NULL)",
    some '\x7b'⟩

/-- The method for the descriptor is a method whose body is quiet. -/
theorem shows_descriptorCode {owner : Namespace} (howner : owner.HasWords) (hne : owner ≠ .root)
    {fields : List Field} (h : ∀ f ∈ fields, ShowsQuiet (f.metadata f.name)) :
    ∃ body, IsQuiet body ∧ Shows (descriptorCode owner fields)
      (descriptorDeclaration :: body ++ [⟨"", some '\x7d'⟩]) := by
  have hstatement : ShowsQuiet (lines [descriptorStatement owner]) := by
    have hmark : "$descriptor = new \\DrSlump\\Protobuf\\Descriptor('" =
        "$descriptor = new \\DrSlump\\Protobuf\\Descriptor(" ++ "'" := by decide
    have hend : "');" = "'" ++ ")" ++ ";" := by decide
    have hquiet := (looksQuiet_className howner hne).append (looksQuiet_plain (a := ")") (by decide))
    have hstatement := showsQuiet_statement
      "$descriptor = new \\DrSlump\\Protobuf\\Descriptor(" String.toList_ofList (by decide)
      hquiet
    rw [descriptorStatement_eq, hmark, hend]
    simpa only [String.append_assoc] using hstatement
  have hreturn : ShowsQuiet (lines ["return self::$__descriptor;"]) :=
    showsQuiet_closed String.toList_ofList (by decide)
  have hset : ShowsQuiet (lines ["self::$__descriptor = $descriptor;"]) :=
    showsQuiet_closed String.toList_ofList (by decide)
  have hadd : ShowsQuiet (lines ["$descriptor->addField($f);"]) :=
    showsQuiet_closed String.toList_ofList (by decide)
  have hcall : ShowsQuiet (lines ["$descriptor->addField($cb(), true);"]) :=
    showsQuiet_closed String.toList_ofList (by decide)
  have hfields : ShowsQuiet (fields.flatMap addFieldCode) :=
    showsQuiet_flatMap fun f hf => (h f hf).append (hadd.append showsQuiet_blank)
  have hgiven : ShowsQuiet (block "if (NULL !== $descriptor) \x7b"
      (lines ["self::$__descriptor = $descriptor;", "return self::$__descriptor;"])) :=
    (hset.append hreturn).block "if" String.toList_ofList (by decide) (by decide) (by decide)
      (by decide)
  have hloop : ShowsQuiet (block "foreach (self::$__extensions as $cb) \x7b"
      (lines ["$descriptor->addField($cb(), true);"])) :=
    hcall.block "foreach" String.toList_ofList (by decide) (by decide) (by decide)
      (by decide)
  have hmade : ShowsQuiet (block "if (!self::$__descriptor) \x7b"
      (lines [descriptorStatement owner, ""] ++ fields.flatMap addFieldCode ++
        block "foreach (self::$__extensions as $cb) \x7b"
          (lines ["$descriptor->addField($cb(), true);"]) ++
        lines ["", "self::$__descriptor = $descriptor;"])) :=
    ((((hstatement.append showsQuiet_blank).append hfields).append hloop).append
      (showsQuiet_blank.append hset)).block "if" String.toList_ofList (by decide) (by decide)
      (by decide) (by decide)
  obtain ⟨body, hshows, hquiet⟩ :=
    ((hgiven.append showsQuiet_blank).append hmade).append (showsQuiet_blank.append hreturn)
  refine ⟨body, hquiet, ?_⟩
  have hopening := shows_opening
    "public static function descriptor(\\DrSlump\\Protobuf\\Descriptor $descriptor = NULL)" 'p' ')'
    String.toList_ofList (by decide) (by decide) (by decide) (by decide)
  exact (hopening.append hshows.indent).append shows_closingBrace

end ProtoPhp.Php
