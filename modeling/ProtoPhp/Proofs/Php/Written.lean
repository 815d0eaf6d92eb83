/-
The written form of code.

Code is written line by line, each with its margin.  So the text of the
statements about a field is known as a whole, wherever they stand and under
whatever name the field goes.

* `Php.absolute_eq` — the absolute name of a class, segment by segment;
* `Php.render_deepen_lines` — the text of lines at a depth;
* `Php.render_metadata` — the text of the statements that build the metadata
  object of a field.
-/
import ProtoPhp.Php.Class

namespace ProtoPhp.Php

/-- A backslash stands in front of each segment. -/
theorem absolute_eq (ns : Namespace) : absolute ns = "\\" ++ "\\".intercalate ns.segments := rfl

/-- The spaces in front of a line. -/
def margin (depth : Nat) : String := String.join (List.replicate depth "  ")

/-- Code some levels deeper. -/
def deepen (n : Nat) (code : Code) : Code := code.map fun l => ⟨l.depth + n, l.text⟩

theorem indent_eq_deepen (code : Code) : indent code = deepen 1 code := rfl

@[simp] theorem deepen_zero (code : Code) : deepen 0 code = code := by
  simp [deepen]

@[simp] theorem deepen_append (n : Nat) (a b : Code) :
    deepen n (a ++ b) = deepen n a ++ deepen n b := by
  simp [deepen]

@[simp] theorem deepen_deepen (n k : Nat) (code : Code) :
    deepen n (deepen k code) = deepen (k + n) code := by
  simp [deepen, Nat.add_assoc]

/-- Lines are single lines one after the other. -/
theorem lines_eq_flatMap (texts : List String) : lines texts = texts.flatMap fun s => lines [s] := by
  rw [lines, List.map_eq_flatMap]
  rfl

theorem lines_append (a b : List String) : lines (a ++ b) = lines a ++ lines b := List.map_append

theorem deepen_flatMap {α : Type} (n : Nat) (f : α → Code) (xs : List α) :
    deepen n (xs.flatMap f) = xs.flatMap fun x => deepen n (f x) := by
  rw [deepen, List.map_flatMap]
  rfl

theorem render_flatMap {α : Type} (f : α → Code) (xs : List α) :
    render (xs.flatMap f) = String.join (xs.map fun x => render (f x)) := by
  induction xs with
  | nil => rfl
  | cons x xs ih => rw [List.flatMap_cons, render_append, ih, List.map_cons, String.join_cons]

/-- Lines with a text are written one below the other, each behind its margin. -/
theorem render_deepen_lines (n : Nat) {texts : List String} (h : ∀ s ∈ texts, s ≠ "") :
    render (deepen n (lines texts)) = String.join (texts.map fun s => margin n ++ s ++ "\n") := by
  have hline : ∀ s ∈ texts, (⟨0 + n, s⟩ : Line).render = margin n ++ s ++ "\n" := by
    intro s hs
    have hs : s.isEmpty = false := by simpa using h s hs
    rw [Line.render, hs, Nat.zero_add]
    rfl
  rw [render, deepen, lines, List.map_map, List.map_map]
  exact congrArg String.join (List.map_congr_left hline)

theorem render_deepen_line (n : Nat) {text : String} (h : text ≠ "") :
    render (deepen n (lines [text])) = margin n ++ text ++ "\n" := by
  rw [render_deepen_lines n (by simpa using h), List.map_singleton, String.join_cons, String.join_nil,
    String.append_empty]

theorem render_deepen_blank (n : Nat) : render (deepen n blank) = "\n" := rfl

namespace Field

/-- The text of the statements that build the metadata object of a field. -/
def metadataText (f : Field) (depth : Nat) (name : String) : String :=
  let m := margin depth
  m ++ "// " ++ f.descriptor.label.keyword ++ " " ++ f.schemaType ++ " " ++ name ++ " = " ++ f.tag ++
      "\n" ++
    m ++ "$f = new \\DrSlump\\Protobuf\\Field();\n" ++
    m ++ "$f->number    = " ++ f.tag ++ ";\n" ++
    m ++ "$f->name      = " ++ quote name ++ ";\n" ++
    m ++ "$f->type      = " ++ toString f.descriptor.type.code ++ ";\n" ++
    m ++ "$f->rule      = " ++ toString f.descriptor.label.code ++ ";\n" ++
    (match f.type.target? with
      | some target =>
        m ++ "$f->reference = '" ++ ("\\" ++ "\\".intercalate target.segments) ++ "';\n"
      | none => "") ++
    match f.default? with
      | some value => m ++ "$f->default   = " ++ value ++ ";\n"
      | none => ""

theorem render_metadata (f : Field) (n : Nat) (name : String) :
    render (deepen n (f.metadata name)) = f.metadataText n name := by
  refine (render_deepen_lines n ?_).trans ?_
  · cases f.type.target? <;> cases f.default? <;> simp [String.append_eq_empty_iff]
  · unfold metadataText
    cases f.type.target? <;> cases f.default? <;>
      simp [absolute_eq, String.join_cons, String.append_assoc]

end Field

end ProtoPhp.Php
