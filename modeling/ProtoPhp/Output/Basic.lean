/-
The result of a run.

A run gives files and warnings, both in the order in which they arise.

* `Output.append` — runs one after the other;
* `Output.file?` — the first file with a name.
-/
import ProtoPhp.Error

namespace ProtoPhp

/-- A generated file. -/
structure GeneratedFile where
  /-- The path below the output directory. -/
  name : String
  content : String
  deriving Repr, DecidableEq, Inhabited

/-- What a successful run gives. -/
structure Output where
  files : List GeneratedFile := []
  warnings : List Warning := []
  deriving Repr, DecidableEq, Inhabited

namespace Output

/-- The results of two runs, one after the other. -/
def append (a b : Output) : Output := ⟨a.files ++ b.files, a.warnings ++ b.warnings⟩

instance : Append Output := ⟨append⟩

/-- The results of several runs. -/
def concat (outputs : List Output) : Output := outputs.foldl (· ++ ·) {}

/-- The first file with a name. -/
def file? (o : Output) (name : String) : Option GeneratedFile :=
  o.files.find? (·.name == name)

@[simp] theorem files_append (a b : Output) : (a ++ b).files = a.files ++ b.files := rfl

theorem append_assoc (a b c : Output) : a ++ b ++ c = a ++ (b ++ c) := by
  show append (append a b) c = append a (append b c)
  simp [append]

@[simp] theorem empty_append (a : Output) : ({} : Output) ++ a = a := rfl

@[simp] theorem append_empty (a : Output) : a ++ ({} : Output) = a := by
  show append a {} = a
  simp [append]

end Output

end ProtoPhp
