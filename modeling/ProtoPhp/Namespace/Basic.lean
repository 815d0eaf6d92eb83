/-
PHP namespaces.

A namespace is a list of segments.  It is written with backslashes in PHP, with
dots in the schema language and with slashes as a path of files; reading takes
dots and backslashes alike and ignores empty segments.

* `Namespace.parse` — reads a written namespace;
* `Namespace.toString`, `Namespace.dotted`, `Namespace.filePath` — the three written forms;
* `Namespace.join_assoc`, `Namespace.join_root`, `Namespace.root_join` — namespaces form a
  monoid under `join`.
-/
namespace ProtoPhp

/-- A PHP namespace, or the fully qualified name of a class. -/
structure Namespace where
  segments : List String
  deriving Repr, DecidableEq, Inhabited

namespace Namespace

/-- The global namespace. -/
def root : Namespace := ⟨[]⟩

/-- A character that ends a segment of a written namespace. -/
def isSeparator (c : Char) : Bool := c == '.' || c == '\\'

/-- The non-empty segments of a written namespace. -/
def segmentsOf (cs : List Char) : List (List Char) :=
  (cs.splitOnP isSeparator).filter (! ·.isEmpty)

/-- Reads a namespace written with dots or backslashes. -/
def parse (text : String) : Namespace :=
  ⟨(segmentsOf text.toList).map String.ofList⟩

/-- Adds one segment, whatever characters it has. -/
def child (n : Namespace) (name : String) : Namespace := ⟨n.segments ++ [name]⟩

/-- One namespace inside another. -/
def join (n m : Namespace) : Namespace := ⟨n.segments ++ m.segments⟩

/-- Is the global namespace. -/
def isRoot (n : Namespace) : Bool := n.segments.isEmpty

/-- The form in PHP code, with backslashes and without a leading one. -/
protected def toString (n : Namespace) : String := "\\".intercalate n.segments

instance : ToString Namespace := ⟨Namespace.toString⟩

/-- The form in schemas, with dots. -/
def dotted (n : Namespace) : String := ".".intercalate n.segments

/-- The form as a path of files, with slashes. -/
def filePath (n : Namespace) : String := "/".intercalate n.segments

/-- Namespaces are ordered segment by segment. -/
instance : Ord Namespace := ⟨fun n m => List.compareLex compare n.segments m.segments⟩

@[simp] theorem segments_root : root.segments = [] := rfl

@[simp] theorem segments_child (n : Namespace) (name : String) :
    (n.child name).segments = n.segments ++ [name] := rfl

@[simp] theorem segments_join (n m : Namespace) :
    (n.join m).segments = n.segments ++ m.segments := rfl

theorem join_assoc (a b c : Namespace) : (a.join b).join c = a.join (b.join c) := by
  simp [join]

@[simp] theorem join_root (n : Namespace) : n.join root = n := by
  simp [join]

@[simp] theorem root_join (n : Namespace) : root.join n = n := by
  simp [join]

end Namespace

end ProtoPhp
