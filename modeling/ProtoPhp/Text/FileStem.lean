/-
File stems.

A path names a file by its last component; empty components and single dots do
not count.  The stem of the file is what stands before the last dot of its
name, where a dot at the start of the name does not count.

* `Text.fileStem` — the stem, or the whole path where it names no file.
-/
namespace ProtoPhp.Text

/-- The components of a path that count. -/
def components (path : List Char) : List (List Char) :=
  (path.splitOn '/').filter fun c => c != [] && c != ['.']

/-- A file name without what follows its last dot. -/
def stemOfName (name : List Char) : List Char :=
  match (name.reverse.dropWhile (· != '.')).reverse.dropLast with
  | [] => name
  | stem => stem

/-- The stem of the file that a path names; a path that names no file is its own stem. -/
def fileStem (path : String) : String :=
  match (components path.toList).getLast? with
  | none => path
  | some name => if name = ['.', '.'] then path else String.ofList (stemOfName name)

end ProtoPhp.Text
