/-
Generating the classes of schema files.

* `generateFile` — the files of one schema, under a package table and a date;
* `generate` — a whole run: the table of all schemas, then each schema in order.
-/
import ProtoPhp.Output.Assembly
import ProtoPhp.Text.FileStem

namespace ProtoPhp

/-- The units of a schema file and the warnings about its references. -/
def fileUnits (t : PackageTable) (file : Descriptor.File) (options : Options) :
    Except Error (List SourceUnit × List Warning) :=
  (SourceUnit.ofFile t (options.namespaceFor file.package) (Text.fileStem file.name) file).run []

/-- Generates the files of one schema. -/
def generateFile (t : PackageTable) (date : Option Timestamp) (file : Descriptor.File)
    (options : Options) : Except Error Output := do
  let (units, warnings) ← fileUnits t file options
  return ⟨Assembly.files units (Text.fileStem file.name) options ⟨file.name, date⟩, warnings⟩

/-- Generates the files of several schemas under one table, in order. -/
def generateFiles (t : PackageTable) (date : Option Timestamp)
    (files : List (Descriptor.File × Options)) : Except Error Output :=
  Output.concat <$> files.mapM fun f => generateFile t date f.1 f.2

/-- Generates the files of several schemas, whose packages make up the table. -/
def generate (date : Option Timestamp) (files : List (Descriptor.File × Options)) :
    Except Error Output :=
  generateFiles (.ofFiles files) date files

end ProtoPhp
