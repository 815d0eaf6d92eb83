/-
The answer to a schema compiler.

A failed run is answered by the text of its error alone.  A successful run is
answered by its files, and by the mark that optional fields of proto3 schemas
are supported.

* `Response.ofRun` — the answer for the result of a run;
* `Response.encode` — the answer on the wire.
-/
import ProtoPhp.Output.Basic
import ProtoPhp.Wire.Record
import ProtoPhp.Wire.Utf8

namespace ProtoPhp

open Wire

/-- An answer to a schema compiler. -/
structure Response where
  error : Option String := none
  supportedFeatures : Option Nat := none
  files : List GeneratedFile := []
  deriving Repr, DecidableEq, Inhabited

namespace Response

/-- The feature bit for optional fields of proto3 schemas. -/
def proto3Optional : Nat := 1

/-- The answer for the result of a run. -/
def ofRun : Except Error Output → Response
  | .ok output => { supportedFeatures := some proto3Optional, files := output.files }
  | .error e => { error := some e.message }

/-- A generated file on the wire. -/
def encodeFile (f : GeneratedFile) : Bytes :=
  writeRecord 1 (.bytes (encodeText f.name)) ++ writeRecord 15 (.bytes (encodeText f.content))

/-- The answer on the wire, its fields in the order of their numbers. -/
def encode (r : Response) : Bytes :=
  (r.error.elim [] fun text => writeRecord 1 (.bytes (encodeText text))) ++
    (r.supportedFeatures.elim [] fun features => writeRecord 2 (.varint features)) ++
    r.files.flatMap fun f => writeRecord 15 (.bytes (encodeFile f))

end Response

end ProtoPhp
