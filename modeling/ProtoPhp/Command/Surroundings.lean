/-
The file system around the working directory.

Of what lies outside the working directory a run knows the devices and a few
files and directories that every system has.  Directories may be made and files
written anywhere, except in the views that the system gives of itself.  Places
are given by their names from the root on.

* `Surroundings.file?` — the known file at a place;
* `Surroundings.enter?` — a step into a directory.
-/
import ProtoPhp.Wire.Varint

namespace ProtoPhp.Command

open Wire

/-- A file that is there before the run, by what reading and writing it does. -/
inductive KnownFile where
  /-- Standard input. -/
  | input
  /-- Standard output. -/
  | output
  /-- Takes everything and is empty. -/
  | null
  /-- Takes everything and is not read. -/
  | sink
  /-- Takes nothing. -/
  | full
  deriving Repr, DecidableEq, Inhabited

/-- The bytes that a file holds, where a run can use them. -/
def KnownFile.content? (stdin : Bytes) : KnownFile → Option Bytes
  | input => some stdin
  | null => some []
  | output | sink | full => none

namespace Surroundings

/-- The files that a run knows. -/
def knownFiles : List (List String × KnownFile) := [
  (["dev", "stdin"], .input),
  (["dev", "stdout"], .output),
  (["dev", "stderr"], .sink),
  (["proc", "self", "fd", "0"], .input),
  (["proc", "self", "fd", "1"], .output),
  (["proc", "self", "fd", "2"], .sink),
  (["dev", "null"], .null),
  (["dev", "zero"], .sink),
  (["dev", "random"], .sink),
  (["dev", "urandom"], .sink),
  (["dev", "full"], .full),
  (["dev", "tty"], .full),
  (["dev", "ptmx"], .sink),
  (["dev", "core"], .full),
  (["etc", "passwd"], .sink),
  (["etc", "group"], .sink),
  (["etc", "hosts"], .sink)]

/-- The directories that a run knows. -/
def knownDirectories : List (List String) := [
  [], ["dev"], ["dev", "shm"], ["dev", "pts"], ["etc"], ["home"], ["opt"], ["proc"],
  ["proc", "self"], ["proc", "self", "fd"], ["root"], ["run"], ["srv"], ["sys"], ["tmp"], ["usr"],
  ["usr", "bin"], ["usr", "lib"], ["usr", "local"], ["usr", "share"], ["var"], ["var", "tmp"]]

/-- A name that a file or a directory can have. -/
def isFileName (name : String) : Bool :=
  name ≠ "" && name ≠ "." && name ≠ ".." && name.utf8ByteSize ≤ 255

/-- The place that a name in a directory leads to: the open files have a second directory. -/
def placeOf (directory : List String) (name : String) : List String :=
  if directory = ["dev"] ∧ name = "fd" then ["proc", "self", "fd"] else directory ++ [name]

/-- The known file at a place. -/
def file? (names : List String) : Option KnownFile := knownFiles.lookup names

/-- Something new can be put at a place. -/
def isFree (names : List String) : Bool :=
  !knownDirectories.contains names && (file? names).isNone &&
    names.head? != some "proc" && names.head? != some "sys"

/-- Steps from a directory into what a name stands for; `make` makes a directory that is missing. -/
def enter? (make : Bool) (directory : List String) (name : String) : Option (List String) :=
  if name = ".." then some directory.dropLast
  else
    let names := placeOf directory name
    if knownDirectories.contains names || (make && isFileName name && isFree names) then some names
    else none

end Surroundings

end ProtoPhp.Command
