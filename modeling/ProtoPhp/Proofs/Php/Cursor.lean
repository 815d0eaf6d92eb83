/-
Code written with a cursor.

A cursor stands at a depth and writes one line after the other at this depth; it is
sent one level deeper and back again.  Taking back a level at the outermost depth is
an error, and so is stopping at any other depth.  The code of enums, classes and
registrations can be written in this way, step by step in the order of its lines: no
step fails, the cursor ends at the outermost depth, and what it has written is the
written form of the code.

* `Php.Writer.run`, `Php.written?` — the steps of a cursor, and what they write;
* `Php.Writes` — steps that write a piece of code at any depth and come back to it;
* `Php.enumSteps`, `Php.messageSteps`, `Php.registrationsSteps` — the steps for the
  three kinds of code, and `Php.writes_enumSteps` and so on.
-/
import ProtoPhp.Proofs.Php.ClassHead

namespace ProtoPhp.Php

/-- A step of a cursor. -/
inductive Step where
  /-- Writes a line at the depth of the cursor. -/
  | line (text : String)
  | indent
  | dedent
  deriving Repr, DecidableEq

/-- What is written so far, and the depth of the next line. -/
structure Writer where
  text : String := ""
  depth : Nat := 0
  deriving Repr, DecidableEq

namespace Writer

/-- A step; at the outermost depth there is no level to take back. -/
def step (w : Writer) : Step → Option Writer
  | .line text => some { w with text := w.text ++ (⟨w.depth, text⟩ : Line).render }
  | .indent => some { w with depth := w.depth + 1 }
  | .dedent => if w.depth = 0 then none else some { w with depth := w.depth - 1 }

def run (w : Writer) (steps : List Step) : Option Writer := steps.foldlM step w

theorem run_append (w : Writer) (steps steps' : List Step) :
    w.run (steps ++ steps') = (w.run steps).bind (·.run steps') := List.foldlM_append

theorem run_cons (w : Writer) (s : Step) (steps : List Step) :
    w.run (s :: steps) = (w.step s).bind (·.run steps) := List.foldlM_cons

end Writer

/-- What steps write into an empty source, if they end at the outermost depth. -/
def written? (steps : List Step) : Option String :=
  (({} : Writer).run steps).bind fun w => if w.depth = 0 then some w.text else none

/-- Steps that write a piece of code at the depth at which they start, and end there. -/
def Writes (steps : List Step) (code : Code) : Prop :=
  ∀ w : Writer, w.run steps = some ⟨w.text ++ render (deepen w.depth code), w.depth⟩

/-- The steps that write lines at one depth. -/
def lineSteps (code : Code) : List Step := code.map fun l => .line l.text

section Writes

variable {steps steps' : List Step} {code code' : Code}

theorem Writes.written? (h : Writes steps code) : written? steps = some (render code) := by
  rw [Php.written?, h, Option.bind_some, if_pos rfl, String.empty_append, deepen_zero]

theorem writes_nil : Writes [] [] := by
  intro w
  show some w = some ⟨w.text ++ "", w.depth⟩
  rw [String.append_empty]

theorem Writes.append (h : Writes steps code) (h' : Writes steps' code') :
    Writes (steps ++ steps') (code ++ code') := by
  intro w
  rw [Writer.run_append, h, Option.bind_some, h', deepen_append, render_append, String.append_assoc]

theorem writes_flatMap {α : Type} {f : α → List Step} {g : α → Code} {xs : List α}
    (h : ∀ x ∈ xs, Writes (f x) (g x)) : Writes (xs.flatMap f) (xs.flatMap g) := by
  induction xs with
  | nil => exact writes_nil
  | cons x xs ih =>
    rw [List.flatMap_cons, List.flatMap_cons]
    exact (h x List.mem_cons_self).append (ih fun y hy => h y (List.mem_cons_of_mem _ hy))

/-- What is written in the same way is written by the same steps. -/
theorem Writes.congr (h : Writes steps code)
    (heq : ∀ n, render (deepen n code) = render (deepen n code')) : Writes steps code' := by
  intro w
  rw [h, heq]

theorem Writes.of_eq (h : Writes steps code) (hsteps : steps' = steps) (hcode : code' = code) :
    Writes steps' code' := by
  rwa [hsteps, hcode]

theorem writes_line (text : String) : Writes [.line text] (lines [text]) := by
  intro w
  have hline : render (deepen w.depth (lines [text])) = (⟨w.depth, text⟩ : Line).render := by
    simp [render, deepen, lines]
  rw [hline]
  rfl

theorem writes_lines (texts : List String) : Writes (texts.map .line) (lines texts) := by
  rw [lines_eq_flatMap, List.map_eq_flatMap]
  exact writes_flatMap fun s _ => writes_line s

theorem writes_blank : Writes [.line ""] blank := writes_line ""

theorem writes_lineSteps (texts : List String) : Writes (lineSteps (lines texts)) (lines texts) := by
  rw [lineSteps, lines, List.map_map]
  exact writes_lines texts

/-- Between a step deeper and a step back, code is written one level deeper. -/
theorem Writes.indent (h : Writes steps code) :
    Writes ([.indent] ++ steps ++ [.dedent]) (indent code) := by
  intro w
  rw [Writer.run_append, List.singleton_append, Writer.run_cons]
  show ((Writer.mk w.text (w.depth + 1)).run steps).bind _ = _
  rw [h, Option.bind_some, indent_eq_deepen, deepen_deepen, Nat.add_comm 1]
  rfl

theorem Writes.enclose (h : Writes steps code) (opening closing : String) :
    Writes ([.line opening, .indent] ++ steps ++ [.dedent, .line closing])
      (enclose opening code closing) := by
  have hall := ((writes_line opening).append h.indent).append (writes_line closing)
  rw [Php.enclose]
  simpa using hall

end Writes

section Sources

/-- Opens a namespace; the blank line is written before the step deeper. -/
def openNamespace (ns : Namespace) : List Step := [.line (namespaceLine ns), .line "", .indent]

def closeNamespace : List Step := [.dedent, .line "\x7d"]

/-- The steps for an enum. -/
def enumSteps (ns : Namespace) (e : Descriptor.Enum) : List Step :=
  openNamespace ns ++
    [.line ("class " ++ e.name ++ " \x7b"), .indent] ++
    (e.values.map fun v => "const " ++ v.name ++ " = " ++ toString v.number ++ ";").map .line ++
    [.dedent, .line "\x7d"] ++
    closeNamespace

/-- The steps for a method.  The statement in its body is written with its own margin, not one level
deeper. -/
def Method.steps (m : Method) : List Step :=
  lineSteps m.doc.code ++
    [.line ("public function " ++ m.name ++ "(" ++ m.parameters ++ ")\x7b"),
      .line ("  return $this->" ++ m.call ++ ";"), .line "\x7d", .line ""]

/-- The steps that put a field into the descriptor at hand. -/
def addFieldSteps (f : Field) : List Step :=
  lineSteps (f.metadata f.name) ++ [.line "$descriptor->addField($f);", .line ""]

/-- The steps for the method for the descriptor. -/
def descriptorSteps (owner : Namespace) (fields : List Field) : List Step :=
  [.line "public static function descriptor(\\DrSlump\\Protobuf\\Descriptor $descriptor = NULL)",
    .line "\x7b", .indent,
    .line "if (NULL !== $descriptor) \x7b", .indent,
    .line "self::$__descriptor = $descriptor;",
    .line "return self::$__descriptor;",
    .dedent, .line "\x7d", .line "",
    .line "if (!self::$__descriptor) \x7b", .indent,
    .line (descriptorStatement owner), .line ""] ++
  fields.flatMap addFieldSteps ++
  [.line "foreach (self::$__extensions as $cb) \x7b", .indent,
    .line "$descriptor->addField($cb(), true);",
    .dedent, .line "\x7d", .line "",
    .line "self::$__descriptor = $descriptor;",
    .dedent, .line "\x7d", .line "",
    .line "return self::$__descriptor;",
    .dedent, .line "\x7d", .line ""]

/-- The steps for a message. -/
def messageSteps (ns : Namespace) (name : String) (fields : List Field) : List Step :=
  openNamespace ns ++
    [.line ("class " ++ name ++ " extends \\DrSlump\\Protobuf\\Message \x7b"), .indent, .line "",
      .line "/** @var \\DrSlump\\Protobuf\\Descriptor */",
      .line "protected static $__descriptor;",
      .line "/** @var \\Closure[] */",
      .line "protected static $__extensions = array();",
      .line ""] ++
    descriptorSteps (ns.child name) fields ++
    (fields.flatMap fun f => lineSteps f.property) ++
    [.line ""] ++
    (fields.flatMap fun f => (f.accessors (ns.child name)).flatMap Method.steps) ++
    [.dedent, .line "\x7d"] ++
    closeNamespace

/-- The steps for a call that registers an extension. -/
def registrationSteps (extended scope : Namespace) (f : Field) : List Step :=
  [.line ("\\" ++ "\\".intercalate extended.segments ++ "::extension(function()\x7b"), .indent] ++
    lineSteps (f.metadata (scope.child f.name).dotted) ++
    [.line "return $f;", .dedent, .line "\x7d);"]

/-- The steps for the registrations of a file, those of each call given. -/
def registrationsSteps (calls : List (List Step)) : List Step :=
  [.line "namespace \x7b", .indent] ++ calls.flatten ++ [.dedent, .line "\x7d"]

/-- The blank line at the start of a namespace is the same at any depth. -/
theorem writes_namespaceBlock {steps : List Step} {code : Code} (h : Writes steps code)
    (ns : Namespace) :
    Writes (openNamespace ns ++ steps ++ closeNamespace) (namespaceBlock ns code) := by
  have hwrites := (((writes_line (namespaceLine ns)).append (writes_line "")).append h.indent).append
    (writes_line "\x7d")
  have hcode : namespaceBlock ns code =
      lines [namespaceLine ns] ++ indent blank ++ indent code ++ lines ["\x7d"] := by
    rw [List.append_assoc (lines _), ← indent_append]
    rfl
  have hsteps : openNamespace ns ++ steps ++ closeNamespace =
      [.line (namespaceLine ns)] ++ [.line ""] ++ ([.indent] ++ steps ++ [.dedent]) ++ [.line "\x7d"] := by
    simp [openNamespace, closeNamespace]
  rw [hsteps, hcode]
  refine hwrites.congr fun n => ?_
  simp only [deepen_append, render_append]
  rfl

/-- A line with a margin of its own is a line one level deeper. -/
theorem render_deepen_indent (n : Nat) (text : String) (h : text ≠ "") :
    render (deepen n (indent (lines [text]))) = render (deepen n (lines ["  " ++ text])) := by
  have hmargin : margin (1 + n) = margin n ++ "  " := by
    rw [margin, Nat.add_comm, List.replicate_succ', String.join_append, String.join_cons,
      String.join_nil, String.append_empty, margin]
  rw [indent_eq_deepen, deepen_deepen, render_deepen_line _ h,
    render_deepen_line _ (by simp [String.append_eq_empty_iff]), hmargin]
  simp only [String.append_assoc]

theorem Method.writes_steps (m : Method) : Writes m.steps m.code := by
  let statement := "return $this->" ++ m.call ++ ";"
  let declaration := "public function " ++ m.name ++ "(" ++ m.parameters ++ ")\x7b"
  have hdoc : Writes (lineSteps m.doc.code) m.doc.code := writes_lineSteps _
  have hrest := writes_lines [declaration, "  return $this->" ++ m.call ++ ";", "\x7d", ""]
  have hbody : "  return $this->" ++ m.call ++ ";" = "  " ++ statement := by
    have hmargin : "  return $this->" = "  " ++ "return $this->" := by decide
    rw [hmargin]
    simp only [statement, String.append_assoc]
  have hlines : lines [declaration, "  return $this->" ++ m.call ++ ";", "\x7d", ""] =
      lines [declaration] ++ (lines ["  " ++ statement] ++ (lines ["\x7d"] ++ blank)) := by
    rw [hbody]
    rfl
  have hcode : m.code = m.doc.code ++ (lines [declaration] ++
      (indent (lines [statement]) ++ (lines ["\x7d"] ++ blank))) := by
    rw [Method.code, block, enclose]
    simp only [List.append_assoc]
    rfl
  refine (hdoc.append hrest).congr fun n => ?_
  rw [hcode, hlines]
  simp only [deepen_append, render_append, render_deepen_indent n statement
    (by simp [statement, String.append_eq_empty_iff])]

theorem writes_enumSteps (ns : Namespace) (e : Descriptor.Enum) :
    Writes (enumSteps ns e) (enumCode ns e) := by
  have hvalues := writes_lines
    (e.values.map fun v => "const " ++ v.name ++ " = " ++ toString v.number ++ ";")
  have hclass := hvalues.enclose ("class " ++ e.name ++ " \x7b") "\x7d"
  exact (writes_namespaceBlock hclass ns).of_eq (by simp [enumSteps]) rfl

theorem writes_metadata (f : Field) (name : String) :
    Writes (lineSteps (f.metadata name)) (f.metadata name) := writes_lineSteps _

theorem writes_addFieldSteps (f : Field) : Writes (addFieldSteps f) (addFieldCode f) :=
  (writes_metadata f f.name).append (writes_lines ["$descriptor->addField($f);", ""])

/-- The steps for the fields stand between those for the two conditions and those for the loop. -/
theorem writes_descriptorSteps (owner : Namespace) (fields : List Field) :
    Writes (descriptorSteps owner fields) (descriptorCode owner fields ++ blank) := by
  have hgiven := (writes_lines ["self::$__descriptor = $descriptor;",
    "return self::$__descriptor;"]).enclose "if (NULL !== $descriptor) \x7b" "\x7d"
  have hfields : Writes (fields.flatMap addFieldSteps) (fields.flatMap addFieldCode) :=
    writes_flatMap fun f _ => writes_addFieldSteps f
  have hloop := (writes_lines ["$descriptor->addField($cb(), true);"]).enclose
    "foreach (self::$__extensions as $cb) \x7b" "\x7d"
  have hstatement := writes_lines [descriptorStatement owner, ""]
  have hset := writes_lines ["", "self::$__descriptor = $descriptor;"]
  have hmade := (((hstatement.append hfields).append hloop).append hset).enclose
    "if (!self::$__descriptor) \x7b" "\x7d"
  have hreturn := writes_lines ["", "return self::$__descriptor;"]
  have hbody := (((hgiven.append writes_blank).append hmade).append hreturn).enclose "\x7b" "\x7d"
  have hall := ((writes_line
    "public static function descriptor(\\DrSlump\\Protobuf\\Descriptor $descriptor = NULL)").append
    hbody).append writes_blank
  exact hall.of_eq (by simp [descriptorSteps]) (by rw [descriptorCode]; rfl)

theorem writes_messageSteps (ns : Namespace) (name : String) (fields : List Field) :
    Writes (messageSteps ns name fields) (messageCode ns name fields) := by
  have hheader := writes_lines ["", "/** @var \\DrSlump\\Protobuf\\Descriptor */",
    "protected static $__descriptor;", "/** @var \\Closure[] */",
    "protected static $__extensions = array();", ""]
  have hproperties : Writes (fields.flatMap fun f => lineSteps f.property)
      (fields.flatMap Field.property) := by
    refine writes_flatMap fun f _ => ?_
    rw [Field.property]
    split
    · exact writes_lineSteps _
    · exact writes_lineSteps _
  have haccessors : Writes
      (fields.flatMap fun f => (f.accessors (ns.child name)).flatMap Method.steps)
      (fields.flatMap fun f => (f.accessors (ns.child name)).flatMap Method.code) :=
    writes_flatMap fun f _ => writes_flatMap fun m _ => m.writes_steps
  have hmembers := ((((hheader.append (writes_descriptorSteps (ns.child name) fields)).append
    hproperties).append writes_blank).append haccessors).enclose
    ("class " ++ name ++ " extends \\DrSlump\\Protobuf\\Message \x7b") "\x7d"
  exact (writes_namespaceBlock hmembers ns).of_eq (by simp [messageSteps])
    (by simp [messageCode, block, classHeader])

theorem writes_registrationSteps (extended scope : Namespace) (f : Field) :
    Writes (registrationSteps extended scope f) (registrationCode extended scope f) := by
  have hcall := ((writes_metadata f (scope.child f.name).dotted).append (writes_line "return $f;")).enclose
    ("\\" ++ "\\".intercalate extended.segments ++ "::extension(function()\x7b") "\x7d);"
  exact hcall.of_eq (by simp [registrationSteps]) rfl

theorem writes_registrationsSteps {α : Type} {es : List α} {steps : α → List Step} {code : α → Code}
    (h : ∀ e ∈ es, Writes (steps e) (code e)) :
    Writes (registrationsSteps (es.map steps)) (registrationsCode (es.map code)) := by
  rw [registrationsSteps, registrationsCode, ← List.flatMap_def, ← List.flatMap_def]
  exact (writes_flatMap h).enclose "namespace \x7b" "\x7d"

end Sources

end ProtoPhp.Php
