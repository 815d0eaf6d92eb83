/-
The command line.

Reads the arguments, standard input and files, and writes what a run gives.
Errors and warnings go to standard error.
-/
import ProtoPhp.Command.Run

namespace ProtoPhp.Command

open Wire

/-- The bytes of a byte list. -/
def pack (bytes : Bytes) : ByteArray := ⟨bytes.toArray⟩

/-- Writes an error with its advice to standard error. -/
def report (e : Error) : IO Unit := do
  IO.eprintln ("Error: " ++ e.detail)
  if let some help := e.help then IO.eprintln ("  help: " ++ help)

/-- Writes generated files below a directory. -/
def writeOutput (directory : String) (output : Output) : IO Unit := do
  for w in output.warnings do
    IO.eprintln (" WARN " ++ w.message)
  for f in output.files do
    let path := joinPath directory f.name
    IO.FS.createDirAll (parentPath path)
    IO.FS.writeFile path f.content

/-- Carries out what the arguments ask for. -/
def execute (arguments : List String) : IO UInt32 := do
  match parse arguments with
  | .refused =>
    IO.eprint shortHelp
    return 2
  | .version =>
    IO.print versionText
    return 0
  | .help long =>
    IO.print (if long then longHelp else shortHelp)
    return 0
  | .run a =>
    match a.descriptorSet with
    | none =>
      let request ← (← IO.getStdin).readBinToEnd
      let stdout ← IO.getStdout
      stdout.write (pack (answer request.data.toList))
      return 0
    | some set =>
      let bytes ← IO.FS.readBinFile set
      match generateDescriptorSet bytes.data.toList a.files a.parameter with
      | .error e =>
        report e
        return 1
      | .ok output =>
        writeOutput a.outputDirectory output
        return 0

end ProtoPhp.Command

/-- The program; a failure to read or write is reported as an error. -/
def main (arguments : List String) : IO UInt32 := do
  try ProtoPhp.Command.execute arguments
  catch e =>
    IO.eprintln ("Error: " ++ toString e)
    return 1
