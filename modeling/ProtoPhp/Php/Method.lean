/-
Public methods with a doc comment.

Every accessor of a generated class passes its arguments on to one call on the
object and returns what the call returns.

* `Php.Method.code` — the lines of an accessor.
-/
import ProtoPhp.Php.Code

namespace ProtoPhp.Php

/-- A doc comment: a summary, the parameters and the result. -/
structure DocComment where
  summary : String
  parameters : List String := []
  result : String
  deriving Repr, DecidableEq, Inhabited

/-- The lines of a doc comment. -/
def DocComment.code (d : DocComment) : Code :=
  lines (["/**", " * " ++ d.summary, " *"] ++ d.parameters.map (" * @param " ++ ·) ++
    [" * @return " ++ d.result, " */"])

/-- An accessor: its documentation, its name, its written parameters, and the call that it
returns. -/
structure Method where
  doc : DocComment
  name : String
  parameters : String := ""
  call : String
  deriving Repr, DecidableEq, Inhabited

/-- The lines of an accessor, with the blank line after it. -/
def Method.code (m : Method) : Code :=
  m.doc.code ++
    block ("public function " ++ m.name ++ "(" ++ m.parameters ++ ")\x7b")
      (lines ["return $this->" ++ m.call ++ ";"]) ++
    blank

end ProtoPhp.Php
