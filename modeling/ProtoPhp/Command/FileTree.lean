/-
The files below the working directory.

A tree holds files and directories, each at its list of names from the working
directory on.  A written path is walked name by name.  A path that starts at the
root, or leaves the working directory, leads outside, where the tree knows
nothing of its own.

* `FileTree.read?` — the content of a file;
* `FileTree.write` — the tree with a file written and its directories made.
-/
import ProtoPhp.Command.Surroundings
import ProtoPhp.Wire.Utf8

namespace ProtoPhp.Command

open Wire

/-- What is at a place: a directory, or a file with its content. -/
inductive Node where
  | directory
  | file (content : Bytes)
  deriving Repr, DecidableEq, Inhabited

/-- Where a walk has come to. -/
inductive Place where
  /-- The names from the working directory on. -/
  | inside (names : List String)
  /-- The names from the root on. -/
  | outside (names : List String)
  /-- A directory around the working directory, or a place reached from there. -/
  | unknown
  deriving Repr, DecidableEq, Inhabited

/-- What becomes of a file that is written. -/
inductive Written where
  | refused
  | stored
  /-- The file is standard output. -/
  | printed
  deriving Repr, DecidableEq, Inhabited

/-- The nodes below the working directory, each at the names that lead to it. -/
structure FileTree where
  nodes : List (List String × Node) := []
  deriving Repr, DecidableEq, Inhabited

namespace FileTree

open Surroundings (isFileName)

/-- The names in a path; a path from the root on starts with an empty one. -/
def namesOf (path : String) : List String := (path.toList.splitOn '/').map String.ofList

/-- Where a path starts. -/
def start (path : String) : Place :=
  if path.toList.head? = some '/' then .outside [] else .inside []

/-- What is at a place; the working directory itself is a directory. -/
def node? (t : FileTree) (names : List String) : Option Node :=
  if names = [] then some .directory else t.nodes.lookup names

/-- The tree with a node at a place. -/
def put (t : FileTree) (names : List String) (node : Node) : FileTree :=
  ⟨(names, node) :: t.nodes.filter (·.1 != names)⟩

/-- A path that can lead anywhere: it has fewer than 4096 bytes, and none of them is zero. -/
def isPath (path : String) : Bool := path.utf8ByteSize < 4096 && !path.toList.contains '\x00'

/-- Walks into one name; `make` makes a directory that is missing. -/
def enter? (make : Bool) (at' : FileTree × Place) (name : String) : Option (FileTree × Place) :=
  if name = "" ∨ name = "." then some at'
  else
    match at' with
    | (t, .unknown) => some (t, .unknown)
    | (t, .outside names) =>
      (Surroundings.enter? make names name).map fun names => (t, .outside names)
    | (t, .inside names) =>
      if name = ".." then some (t, if names = [] then .unknown else .inside names.dropLast)
      else
        match t.node? (names ++ [name]) with
        | some .directory => some (t, .inside (names ++ [name]))
        | some (.file _) => none
        | none =>
          if make && isFileName name then
            some (t.put (names ++ [name]) .directory, .inside (names ++ [name]))
          else none

/-- Walks along names. -/
def walk? (make : Bool) (from' : FileTree × Place) (names : List String) :
    Option (FileTree × Place) :=
  names.foldlM (enter? make) from'

/-- Walks to the directory of a path. -/
def toDirectory? (t : FileTree) (make : Bool) (path : String) : Option (FileTree × Place) :=
  if isPath path then walk? make (t, start path) (namesOf path).dropLast else none

/-- The last name in a path. -/
def lastName (path : String) : String := (namesOf path).getLast?.getD ""

/-- The content of a file, in a run with some standard input. -/
def read? (t : FileTree) (stdin : Bytes) (path : String) : Option Bytes :=
  match t.toDirectory? false path with
  | some (_, .inside directory) =>
    match t.node? (directory ++ [lastName path]) with
    | some (.file content) => some content
    | _ => none
  | some (_, .outside directory) =>
    (Surroundings.file? (Surroundings.placeOf directory (lastName path))).bind (·.content? stdin)
  | _ => none

/-- What becomes of a file that is written outside the working directory. -/
def writeOutside (directory : List String) (name : String) : Written :=
  let names := Surroundings.placeOf directory name
  match Surroundings.file? names with
  | some .output => .printed
  | some .full => .refused
  | some _ => .stored
  | none => if isFileName name && Surroundings.isFree names then .stored else .refused

/-- The tree with a file written at a path, after the directories on the way are made.  If the file
is refused, directories may have been made. -/
def write (t : FileTree) (path : String) (content : Bytes) : FileTree × Written :=
  match t.toDirectory? true path with
  | some (t, .inside directory) =>
    let names := directory ++ [lastName path]
    if isFileName (lastName path) && t.node? names != some .directory then
      (t.put names (.file content), .stored)
    else (t, .refused)
  | some (t, .outside directory) => (t, writeOutside directory (lastName path))
  | some (t, .unknown) => (t, if isFileName (lastName path) then .stored else .refused)
  | none => (t, .refused)

/-- The files of a tree. -/
def files (t : FileTree) : List (String × Bytes) :=
  t.nodes.filterMap fun
    | (names, .file content) => some ("/".intercalate names, content)
    | _ => none

end FileTree

/-- A path below a directory; a path from the root on stands for itself. -/
def joinPath (directory path : String) : String :=
  if path.toList.head? = some '/' then path
  else if directory.toList.getLast? = some '/' then directory ++ path
  else directory ++ "/" ++ path

/-- The directory of a path. -/
def parentPath (path : String) : String :=
  String.ofList ((path.toList.reverse.dropWhile (· != '/')).drop 1).reverse

end ProtoPhp.Command
