/-
Linking a file to the pool.

Linking replaces every written type name by the full name of what it means,
with a leading dot, and checks what can only be checked with the whole pool at
hand: imports, numbers, default values, JSON names and oneofs.  The first
broken rule in the order of the file is reported.

* `Linking.linkField`, `Linking.linkExtension`, `Linking.linkMessage` — the linked parts;
* `Linking.linkFile` — the linked file.
-/
import ProtoPhp.Pool.DefaultValue
import ProtoPhp.Pool.Visibility

namespace ProtoPhp.Linking

/-- Refuses with a fault if a condition holds. -/
def refuseIf (condition : Bool) (fault : LoadFault) : Except LoadFault Unit :=
  if condition then .error fault else .ok ()

/-- Field numbers have 29 bits and leave out those kept for implementations. -/
def checkNumber (n : Int) : Except LoadFault Unit := do
  refuseIf (n < 1 || 536870911 < n) (.fieldNumberOutOfRange n)
  refuseIf (19000 ≤ n && n ≤ 19999) (.fieldNumberKept n)

/-- The number lies in a range that leaves out its stop. -/
def inRange (n : Int) (r : Descriptor.NumberRange) : Bool := r.start ≤ n && n < r.stop

/-- The number of a field is one that its message, given with its full name, leaves to it.  A field
that names an extended message takes a number left to extensions, any other field takes one that is
not. -/
def checkFieldNumber (message : String) (m : Descriptor.Message) (f : Descriptor.Field) :
    Except LoadFault Unit := do
  checkNumber f.number
  match m.reserved.find? (inRange f.number), m.extensionRanges.find? (inRange f.number) with
  | some r, _ => .error (.fieldNumberReserved f.number r.start (r.stop - 1))
  | none, some r =>
    refuseIf f.extendee.isNone (.fieldNumberForExtensions f.number r.start (r.stop - 1))
  | none, none => refuseIf f.extendee.isSome (.notAnExtensionNumber message f.number)

/-- The type of a field once its name is looked up: what was found, if the field has a name. -/
def linkType (v : Visibility) (scope : String) (path : List Nat) (f : Descriptor.Field) :
    Except LoadFault (Option Definition) :=
  match f.typeName.getD "" with
  | "" =>
    match f.type with
    | .message | .enum | .group => .error (.missingRequired (path ++ [6]))
    | _ => .ok none
  | name => do
    let d ← v.lookup scope name
    match d.kind with
    | .message _ | .enum _ => .ok (some d)
    | _ => .error (.notAMessageOrEnum name)

/-- A field with the type that was found for it. -/
def withType (f : Descriptor.Field) : Option Definition → Descriptor.Field
  | none => f
  | some d =>
    let type : Descriptor.FieldType :=
      match f.type, d.kind with
      | .group, _ => .group
      | _, .enum _ => .enum
      | _, _ => .message
    { f with typeName := some ("." ++ d.name), type := type }

/-- The default value of a field suits its type. -/
def checkDefault (f : Descriptor.Field) (type : Option Definition) : Except LoadFault Unit :=
  match f.defaultValue, type with
  | none, _ => .ok ()
  | some text, none =>
    refuseIf (!DefaultValue.isValid f.type none text) (.invalidDefault text f.type.keyword)
  | some text, some d =>
    match d.kind with
    | .enum e => refuseIf (!DefaultValue.isValid .enum (some e) text) (.invalidDefault text d.name)
    | _ => .error (.invalidDefault text "message type")

/-- The JSON name of a field: as declared, or the name without underscores and with the letter
after each of them in upper case. -/
def jsonName (f : Descriptor.Field) : String :=
  f.jsonName.getD (String.ofList (camel false f.name.toList))
where
  /-- Drops underscores and puts the letter after them in upper case. -/
  camel (raised : Bool) : List Char → List Char
    | [] => []
    | c :: cs =>
      if c = '_' then camel true cs
      else (if raised then c.toUpper else c) :: camel false cs

/-- The oneof of a field exists. -/
def checkOneof (m : Descriptor.Message) (f : Descriptor.Field) : Except LoadFault Unit :=
  match f.oneofIndex with
  | none => .ok ()
  | some i => refuseIf (i < 0 || (m.oneofs.length : Int) ≤ i) .invalidOneofIndex

/-- Links a field of a message, behind the earlier fields of that message. -/
def linkField (v : Visibility) (scope : String) (path : List Nat) (m : Descriptor.Message)
    (earlier : List Descriptor.Field) (f : Descriptor.Field) :
    Except LoadFault Descriptor.Field := do
  checkFieldNumber scope m f
  let type ← linkType v (Text.qualify scope f.name) path f
  checkDefault f type
  checkOneof m f
  refuseIf (earlier.any (·.number == f.number)) (.fieldNumberUsed f.number)
  refuseIf (earlier.any (jsonName · == jsonName f)) (.jsonNameUsed (f.jsonName.getD ""))
  return withType f type

/-- Links the fields of a message. -/
def linkFields (v : Visibility) (scope : String) (path : List Nat) (m : Descriptor.Message) :
    (linked earlier fields : List Descriptor.Field) → Except LoadFault (List Descriptor.Field)
  | linked, _, [] => .ok linked
  | linked, earlier, f :: fs => do
    let f' ← linkField v scope (path ++ [2, earlier.length]) m earlier f
    linkFields v scope path m (linked ++ [f']) (earlier ++ [f]) fs

/-- The message that a name means. -/
def linkMessageName (v : Visibility) (scope name : String) :
    Except LoadFault (Definition × Descriptor.Message) := do
  let d ← v.lookup scope name
  match d.kind with
  | .message m => .ok (d, m)
  | _ => .error (.notAMessage name)

/-- Links an extension. -/
def linkExtension (v : Visibility) (scope : String) (path : List Nat) (f : Descriptor.Field) :
    Except LoadFault Descriptor.Field := do
  let inside := Text.qualify scope f.name
  let (extended, m) ← linkMessageName v inside (f.extendee.getD "")
  checkFieldNumber extended.name m f
  let type ← linkType v inside path f
  checkDefault f type
  return { withType f type with extendee := some ("." ++ extended.name) }

/-- Links the extensions of a scope. -/
def linkExtensions (v : Visibility) (scope : String) (path : List Nat)
    (fs : List Descriptor.Field) : Except LoadFault (List Descriptor.Field) :=
  fs.zipIdx.mapM fun f => linkExtension v scope (path ++ [f.2]) f.1

/-- The value of an enum has a number of its own, unless the enum allows aliases, and none that is
reserved. -/
def checkEnumValue (e : Descriptor.Enum) (earlier : List Descriptor.EnumValue)
    (value : Descriptor.EnumValue) : Except LoadFault Unit := do
  refuseIf (!e.allowAlias && earlier.any (·.number == value.number))
    (.enumNumberUsed value.number)
  match e.reserved.find? fun r => r.start ≤ value.number && value.number ≤ r.stop with
  | some r => .error (.enumNumberReserved value.number r.start r.stop)
  | none => .ok ()

/-- The values of an enum have numbers of their own. -/
def checkEnumValues (e : Descriptor.Enum) :
    (earlier values : List Descriptor.EnumValue) → Except LoadFault Unit
  | _, [] => .ok ()
  | earlier, value :: values => do
    checkEnumValue e earlier value
    checkEnumValues e (earlier ++ [value]) values

/-- The enums of a scope have values with numbers of their own. -/
def checkEnums (es : List Descriptor.Enum) : Except LoadFault Unit :=
  es.forM fun e => checkEnumValues e [] e.values

mutual

/-- Links a message and what is inside it. -/
def linkMessage (v : Visibility) (scope : String) (path : List Nat) :
    Descriptor.Message → Except LoadFault Descriptor.Message
  | m@{ name, fields, messages, enums, extensions, .. } => do
    let inside := Text.qualify scope name
    let fields ← linkFields v inside path m [] [] fields
    let messages ← linkMessages v inside (path ++ [3]) 0 messages
    checkEnums enums
    let extensions ← linkExtensions v inside (path ++ [6]) extensions
    return { m with fields, messages, extensions }

/-- Links a list of messages, of which the first has the given index. -/
def linkMessages (v : Visibility) (scope : String) (path : List Nat) (index : Nat) :
    List Descriptor.Message → Except LoadFault (List Descriptor.Message)
  | [] => .ok []
  | m :: ms => do
    let m ← linkMessage v scope (path ++ [index]) m
    let ms ← linkMessages v scope path (index + 1) ms
    return m :: ms

end

/-- Links a method: it takes and gives messages. -/
def linkMethod (v : Visibility) (scope : String) (m : Descriptor.Method) :
    Except LoadFault Descriptor.Method := do
  let inside := Text.qualify scope m.name
  let (input, _) ← linkMessageName v inside m.input
  let (output, _) ← linkMessageName v inside m.output
  return { m with input := "." ++ input.name, output := "." ++ output.name }

/-- Links the methods of a service. -/
def linkService (v : Visibility) (scope : String) (s : Descriptor.Service) :
    Except LoadFault Descriptor.Service := do
  let methods ← s.methods.mapM (linkMethod v (Text.qualify scope s.name))
  return { s with methods }

/-- The imports of a file are in the pool, and its public and weak imports are imports. -/
def checkImports (pool : List Descriptor.File) (f : Descriptor.File) : Except LoadFault Unit := do
  f.imports.forM fun name => refuseIf (!pool.any (·.name == name)) (.missingImport name)
  (f.publicImports ++ f.weakImports).forM fun i =>
    refuseIf (i < 0 || (f.imports.length : Int) ≤ i) .invalidImportIndex

/-- Links a file to the files of the pool. -/
def linkFile (pool : List Descriptor.File) (definitions : List Definition) (f : Descriptor.File) :
    Except LoadFault Descriptor.File := do
  checkImports pool f
  let v := Visibility.ofFile pool definitions f
  let messages ← linkMessages v f.package [4] 0 f.messages
  checkEnums f.enums
  let services ← f.services.mapM (linkService v f.package)
  let extensions ← linkExtensions v f.package [7] f.extensions
  return { f with messages, services, extensions }

end ProtoPhp.Linking
