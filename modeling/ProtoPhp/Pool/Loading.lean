/-
Loading files into the pool.

Files join the pool one by one.  A file that is already there is skipped; any
other file defines its names, is linked to the files before it, and has its
options settled by the option types and extensions that the pool then knows.

* `Pool.add` — the pool with one more file;
* `Pool.load` — the pool of a list of encoded files.
-/
import ProtoPhp.Descriptor.Encoded
import ProtoPhp.Error
import ProtoPhp.Pool.Linking
import ProtoPhp.Pool.Settling

namespace ProtoPhp.Pool

/-- The pool with a linked file behind its files; the packages of the file may be known already. -/
def withLinked (p : Pool) (f : Descriptor.File) : Pool where
  files := p.files ++ [f]
  definitions := p.definitions ++ (Definition.ofFile f).filter fun d => (p.find? d.name).isNone

/-- The pool with a file that is not in it yet. -/
def join (p : Pool) (f : Descriptor.File) : Except LoadFault Pool := do
  let names ← Definition.addAll f.proto3 p.definitions (Definition.ofFile f)
  let linked ← Linking.linkFile p.files names f
  let joined := p.withLinked linked
  let settled ← joined.settleFile (.ofFile p.files joined.definitions f) linked
  return p.withLinked settled

/-- The pool with one more file; a file that is already in it is skipped. -/
def add (p : Pool) (f : Descriptor.File) : Except LoadError Pool :=
  if p.files.any (·.name == f.name) then .ok p
  else (p.join f).mapError (LoadError.mk f.name)

/-- The pool with one more encoded file. -/
def addEncoded (p : Pool) (bytes : Wire.Bytes) : Except LoadError Pool :=
  match Descriptor.File.decode? bytes with
  | none => .error ⟨"", .undecodable⟩
  | some f => p.add f

/-- The pool of a list of encoded files. -/
def load (files : List Wire.Bytes) : Except Error Pool :=
  (files.foldlM addEncoded ({} : Pool)).mapError Error.descriptor

end ProtoPhp.Pool
