/-
Running the generator on encoded input.

Input is either the request of a schema compiler or a set of schema files.
Both are read, the parameter is read, the schema files are loaded into a pool,
and the requested files are generated in the order in which they are asked for.
The first failure on the way ends the run.

* `Pool.generate` — generates files of a pool;
* `generateRequest` — answers a request;
* `generateDescriptorSet` — generates files of a set.
-/
import ProtoPhp.Generator
import ProtoPhp.Options.Effective
import ProtoPhp.Options.Parameter
import ProtoPhp.Pool.Loading

namespace ProtoPhp

open Wire

/-- What a schema compiler asks for. -/
structure CodeRequest where
  /-- The files to generate. -/
  files : List String
  parameter : Option String
  /-- The encoded schema files, each after the files that it imports. -/
  schemas : List Bytes
  deriving Repr, DecidableEq, Inhabited

/-- The fields of a request and of a set of schema files. -/
def inputShapes : Shapes
  | "RawCodeGeneratorRequest", 1 =>
    some { name := "RawCodeGeneratorRequest.file_to_generate", kind := .text, repeated := true }
  | "RawCodeGeneratorRequest", 2 =>
    some { name := "RawCodeGeneratorRequest.parameter", kind := .text }
  | "RawCodeGeneratorRequest", 15 =>
    some { name := "RawCodeGeneratorRequest.proto_file", kind := .bytes, repeated := true }
  | "RawFileDescriptorSet", 1 =>
    some { name := "RawFileDescriptorSet.file", kind := .bytes, repeated := true }
  | _, _ => none

/-- Reads a request. -/
def CodeRequest.decode (bytes : Bytes) : Except Error CodeRequest :=
  match Wire.decode inputShapes maxDepth "RawCodeGeneratorRequest" bytes with
  | .ok fields => .ok ⟨fields.texts 1, fields.text? 2, fields.byteStrings 15⟩
  | .error e => .error (.undecodable .request e)

/-- Reads a set of schema files. -/
def decodeDescriptorSet (bytes : Bytes) : Except Error (List Bytes) :=
  match Wire.decode inputShapes maxDepth "RawFileDescriptorSet" bytes with
  | .ok fields => .ok (fields.byteStrings 1)
  | .error e => .error (.undecodable .descriptorSet e)

namespace Pool

/-- The files of the pool, each with its options. -/
def withOptions (p : Pool) (defaults : Options) : List (Descriptor.File × Options) :=
  p.files.map fun f => (f, defaults.forFile p f)

/-- The table of the packages of the pool. -/
def table (p : Pool) (defaults : Options) : PackageTable := .ofFiles (p.withOptions defaults)

/-- Generates one file of the pool, given by its name. -/
def generateNamed (p : Pool) (defaults : Options) (name : String) : Except Error Output :=
  match (p.withOptions defaults).find? (·.1.name == name) with
  | none => .error (.fileNotFound name)
  | some (f, options) => generateFile (p.table defaults) none f options

/-- Generates files of the pool, given by their names. -/
def generate (p : Pool) (defaults : Options) (names : List String) : Except Error Output :=
  Output.concat <$> names.mapM (p.generateNamed defaults)

end Pool

/-- Answers an encoded request. -/
def generateRequest (bytes : Bytes) : Except Error Output := do
  let request ← CodeRequest.decode bytes
  let options ← Options.ofParameter (request.parameter.getD "")
  let pool ← Pool.load request.schemas
  pool.generate options request.files

/-- Generates files of an encoded set; without names, all of them. -/
def generateDescriptorSet (bytes : Bytes) (names : List String) (parameter : Option String) :
    Except Error Output := do
  let schemas ← decodeDescriptorSet bytes
  let options ← Options.ofParameter (parameter.getD "")
  let pool ← Pool.load schemas
  pool.generate options (if names.isEmpty then pool.files.map (·.name) else names)

end ProtoPhp
