/-
A run of the program.

Without a set of schema files the program answers a request: it reads standard
input and writes the encoded answer to standard output.  With one, it writes
the generated files below the output directory, one after the other until a
file cannot be written.

* `Command.run` — the effect of a run on the files below the working directory.
-/
import ProtoPhp.Command.Arguments
import ProtoPhp.Command.FileTree
import ProtoPhp.Command.Help
import ProtoPhp.Plugin.Request
import ProtoPhp.Plugin.Response

namespace ProtoPhp.Command

open Wire

/-- How a run ends. -/
structure Outcome where
  exitCode : Nat
  stdout : Bytes := []
  deriving Repr, DecidableEq, Inhabited

namespace Outcome

/-- A run that did what it was asked for. -/
def success (stdout : Bytes) : Outcome := ⟨0, stdout⟩

/-- A run that failed, after it may have printed something. -/
def failure (stdout : Bytes) : Outcome := ⟨1, stdout⟩

/-- A run that was not started. -/
def misuse : Outcome := ⟨2, []⟩

end Outcome

/-- The answer to an encoded request, encoded. -/
def answer (request : Bytes) : Bytes := (Response.ofRun (generateRequest request)).encode

/-- Writes files below a directory until one cannot be written; `printed` is what standard output
has got so far. -/
def writeFiles (directory : String) (printed : Bytes) :
    List GeneratedFile → FileTree → Outcome × FileTree
  | [], t => (.success printed, t)
  | f :: fs, t =>
    let content := encodeText f.content
    match t.write (joinPath directory f.name) content with
    | (t, .refused) => (.failure printed, t)
    | (t, .stored) => writeFiles directory printed fs t
    | (t, .printed) => writeFiles directory (printed ++ content) fs t

/-- The directory below which files are written. -/
def Arguments.outputDirectory (a : Arguments) : String := a.output.getD "."

/-- Generates files of a set of schema files and writes them. -/
def generateInto (a : Arguments) (set : String) (stdin : Bytes) (t : FileTree) :
    Outcome × FileTree :=
  match t.read? stdin set with
  | none => (.failure [], t)
  | some bytes =>
    match generateDescriptorSet bytes a.files a.parameter with
    | .error _ => (.failure [], t)
    | .ok output => writeFiles a.outputDirectory [] output.files t

/-- The effect of a run. -/
def run (arguments : List String) (stdin : Bytes) (t : FileTree) : Outcome × FileTree :=
  match parse arguments with
  | .refused => (.misuse, t)
  | .version => (.success (encodeText versionText), t)
  | .help long => (.success (encodeText (if long then longHelp else shortHelp)), t)
  | .run a =>
    match a.descriptorSet with
    | none => (.success (answer stdin), t)
    | some set => generateInto a set stdin t

end ProtoPhp.Command
