/-
Indented lines of PHP code.

Code is a list of lines, each with its depth.  A line is written with two
spaces per level of depth in front; a line without text is written without
them.  Depth belongs to lines, not to a cursor, so a piece of code means the
same wherever it is put, and indenting a piece is a map over its lines.

* `Php.render_append` — code is written piece after piece.
-/
namespace ProtoPhp.Php

/-- A line of code.  Its text may itself hold line breaks, which take no indentation. -/
structure Line where
  depth : Nat := 0
  text : String
  deriving Repr, DecidableEq, Inhabited

/-- A piece of code. -/
abbrev Code := List Line

/-- Lines at the outermost depth. -/
def lines (texts : List String) : Code := texts.map (⟨0, ·⟩)

/-- The line without text. -/
def blank : Code := lines [""]

/-- Puts code one level deeper. -/
def indent (code : Code) : Code :=
  code.map fun l => ⟨l.depth + 1, l.text⟩

/-- Code one level deeper between two lines. -/
def enclose (opening : String) (body : Code) (closing : String) : Code :=
  lines [opening] ++ indent body ++ lines [closing]

/-- A block that a brace closes; the opening line has its own brace. -/
def block (opening : String) (body : Code) : Code := enclose opening body "\x7d"

/-- The written form of a line, with its line break. -/
def Line.render (l : Line) : String :=
  if l.text.isEmpty then "\n"
  else String.join (List.replicate l.depth "  ") ++ l.text ++ "\n"

/-- The written form of code. -/
def render (code : Code) : String := String.join (code.map Line.render)

@[simp] theorem render_append (a b : Code) : render (a ++ b) = render a ++ render b := by
  simp [render]

@[simp] theorem indent_append (a b : Code) : indent (a ++ b) = indent a ++ indent b := by
  simp [indent]

end ProtoPhp.Php
