/-
Settling the options of a file.

Once a file is linked, every option message in it is read by the schema of the
pool, the options that are still as written are set in it, and it is written
again.  The settled options of files and of messages take the place of the
earlier ones; those of other parts are only checked, since nobody reads them.

* `Pool.settle` — one option message;
* `Pool.settleFile` — the file with settled options.
-/
import ProtoPhp.Pool.OptionSetting
import ProtoPhp.Typed.Reading
import ProtoPhp.Typed.Writing

namespace ProtoPhp.Pool

open Descriptor

/-- An option message without the options that were still as written, if its type has a field of its
own for them. -/
def dropWritten (s : Typed.Schema) (type : String) (m : Typed.Message) : Typed.Message :=
  if (s.field? type uninterpretedNumber).any (!·.isExtension) then m.erase uninterpretedNumber
  else m

/-- An option message of type `type` that stands in a scope, with all its options set. -/
def settle (p : Pool) (v : Visibility) (scope type : String) (options : EncodedOptions) :
    Except LoadFault EncodedOptions :=
  if options = [] then .ok []
  else
    let s := p.schemaOf type
    match Typed.decode s type options with
    | .error _ => .error .undecodable
    | .ok m => do
      let m ← (writtenOptions type options).foldlM (setOption p v scope type) m
      let settled := Typed.encode s type (dropWritten s type m)
      match Wire.decode standardShapes Wire.maxDepth type settled with
      | .error _ => .error .undecodable
      | .ok _ => return settled

/-- An option message can be settled. -/
def checkOptions (p : Pool) (v : Visibility) (scope type : String) (options : EncodedOptions) :
    Except LoadFault Unit := do
  let _ ← p.settle v scope type options

/-- The options of a field or extension can be settled. -/
def checkField (p : Pool) (v : Visibility) (scope : String) (f : Field) : Except LoadFault Unit :=
  p.checkOptions v (Text.qualify scope f.name) "google.protobuf.FieldOptions" (f.options.getD [])

/-- The options of a oneof can be settled. -/
def checkOneof (p : Pool) (v : Visibility) (scope : String) (o : Oneof) : Except LoadFault Unit :=
  p.checkOptions v (Text.qualify scope o.name) "google.protobuf.OneofOptions" o.options

/-- The options of an enum and of its values, which stand beside it, can be settled. -/
def checkEnum (p : Pool) (v : Visibility) (scope : String) (e : Enum) :
    Except LoadFault Unit := do
  p.checkOptions v (Text.qualify scope e.name) "google.protobuf.EnumOptions" e.options
  e.values.forM fun value =>
    p.checkOptions v (Text.qualify scope value.name) "google.protobuf.EnumValueOptions"
      value.options

/-- The options of a service and of its methods can be settled. -/
def checkService (p : Pool) (v : Visibility) (scope : String) (s : Service) :
    Except LoadFault Unit := do
  let inside := Text.qualify scope s.name
  p.checkOptions v inside "google.protobuf.ServiceOptions" s.options
  s.methods.forM fun m =>
    p.checkOptions v (Text.qualify inside m.name) "google.protobuf.MethodOptions" m.options

mutual

/-- The message with its options and those of the messages inside it settled. -/
def settleMessage (p : Pool) (v : Visibility) (scope : String) :
    Message → Except LoadFault Message
  | m@{ name, fields, messages, enums, extensions, oneofs, extensionRanges, options, .. } => do
    let inside := Text.qualify scope name
    let options ← p.settle v inside "google.protobuf.MessageOptions" options
    extensionRanges.forM fun r =>
      p.checkOptions v inside "google.protobuf.ExtensionRangeOptions" r.options
    oneofs.forM (p.checkOneof v inside)
    fields.forM (p.checkField v inside)
    let messages ← settleMessages p v inside messages
    enums.forM (p.checkEnum v inside)
    extensions.forM (p.checkField v inside)
    return { m with messages, options }

/-- The messages with their options settled. -/
def settleMessages (p : Pool) (v : Visibility) (scope : String) :
    List Message → Except LoadFault (List Message)
  | [] => .ok []
  | m :: ms => do
    let m ← settleMessage p v scope m
    let ms ← settleMessages p v scope ms
    return m :: ms

end

/-- The file with its options and those of its messages settled. -/
def settleFile (p : Pool) (v : Visibility) (f : File) : Except LoadFault File := do
  let options ← p.settle v f.package "google.protobuf.FileOptions" f.options
  let messages ← p.settleMessages v f.package f.messages
  f.enums.forM (p.checkEnum v f.package)
  f.services.forM (p.checkService v f.package)
  f.extensions.forM (p.checkField v f.package)
  return { f with options, messages, phpNamespace := phpNamespaceIn options }

end ProtoPhp.Pool
