/-
The options of a run for one file.

Options say in which namespace the classes of a file live, whether each type
gets a file of its own, and how file names end.

* `Options.namespaceFor` — the namespace option beats the package option, which
  beats the package of the file itself.
-/
import ProtoPhp.Descriptor.Basic
import ProtoPhp.Namespace.Table

namespace ProtoPhp

/-- What a run is told about one file. -/
structure Options where
  /-- Stands in for the package of the file. -/
  package : Option String := none
  /-- Stands in for the namespace, whatever the package is. -/
  namespaceText : Option String := none
  /-- Each type gets a file of its own. -/
  multifile : Bool := false
  /-- The end of file names, with the dot. -/
  suffix : Option String := none
  deriving Repr, DecidableEq, Inhabited

namespace Options

/-- The end of file names where no option gives one. -/
def defaultSuffix : String := ".php"

/-- The end of file names. -/
def suffixText (o : Options) : String := o.suffix.getD defaultSuffix

/-- The namespace of the types of a package. -/
def namespaceFor (o : Options) (package : String) : Namespace :=
  .parse ((o.namespaceText <|> o.package).getD package)

/-- Lets the standard namespace option of a file override the namespace. -/
def withStandard (o : Options) (file : Descriptor.File) : Options :=
  match file.phpNamespace with
  | some text => { o with namespaceText := some text }
  | none => o

end Options

/-- The table of the packages of a list of files, each under the options of its file. -/
def PackageTable.ofFiles (files : List (Descriptor.File × Options)) : PackageTable :=
  .ofList (files.map fun f => (f.1.package, f.2.namespaceFor f.1.package))

end ProtoPhp
