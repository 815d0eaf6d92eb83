/-
Units put together into files.

Every file starts with the same header, which names the schema and the date.
Either one file takes all units of the schema, or units with the same path
share a file of their own.

* `Header.text` — the header;
* `Assembly.files` — the files of a list of units.
-/
import ProtoPhp.Options.Basic
import ProtoPhp.Output.Basic
import ProtoPhp.Output.Timestamp
import ProtoPhp.SourceUnit

namespace ProtoPhp

/-- The version that the header names. -/
def version : String := "0.1.0"

/-- What the header of a file says. -/
structure Header where
  /-- The name of the schema file. -/
  schema : String
  /-- The date; without one, all its digits are zero. -/
  date : Option Timestamp
  deriving Repr, DecidableEq, Inhabited

namespace Header

/-- The date in the header. -/
def dateText (h : Header) : String :=
  match h.date with
  | some t => toString t
  | none => "0000-00-00 00:00:00"

/-- The lines at the start of a file. -/
def text (h : Header) : String :=
  "<?php\n// DO NOT EDIT! Generated by Protobuf for PHP protoc plugin " ++ version ++
    "\n// Source: " ++ h.schema ++ "\n//   Date: " ++ h.dateText ++ "\n\n"

end Header

namespace Assembly

/-- The written form of a list of units. -/
def body (units : List SourceUnit) : String := String.join (units.map SourceUnit.source)

/-- The groups of units that share a file, each with the name of the file without suffix. -/
def parts (multifile : Bool) (stem : String) (units : List SourceUnit) :
    List (String × List SourceUnit) :=
  if multifile then Grouping.grouped SourceUnit.path units else [(stem, units)]

/-- The files of a list of units. -/
def files (units : List SourceUnit) (stem : String) (options : Options) (header : Header) :
    List GeneratedFile :=
  (parts options.multifile stem units).map fun p =>
    ⟨p.1 ++ options.suffixText, header.text ++ body p.2⟩

end Assembly

end ProtoPhp
