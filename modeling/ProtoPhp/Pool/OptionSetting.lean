/-
Setting written options.

A written option is set in an option message.  Its path leads from the message
to a field, through fields that hold single messages.  Its value must have a form
that suits the kind of what the field holds or, if the field is absent, of what
it reads as.  Two extensions that share a number share what is held for it, so
one of them may find a value of the other's kind.  A field that is not repeated
is set only once.

* `Pool.scalarFor?` — the scalar of the kind of an earlier one that a written value stands for;
* `Pool.contentFor?` — what a field holds once a written value is set in it;
* `Pool.setOption` — the option message with a written option set.
-/
import ProtoPhp.Descriptor.WrittenOption
import ProtoPhp.Pool.Schema
import ProtoPhp.Pool.Visibility
import ProtoPhp.Typed.Message

namespace ProtoPhp.Pool

open Descriptor Wire

/-- The number in a written value, if it is an integer of a kind. -/
def integer? (o : WrittenOption) (kind : Typed.IntegerKind) : Option Int :=
  (o.positive.map Int.ofNat <|> o.negative).filter fun n => kind.first ≤ n && n ≤ kind.last

/-- The floating-point number of 64 bits in a written value. -/
def float? (o : WrittenOption) : Option Nat :=
  o.double <|> (o.positive.map Int.ofNat <|> o.negative).map FloatFormat.binary64.ofInt

/-- The scalar of the kind of an earlier one that a written value stands for, if it has a form that
suits this kind.  The name of an enum is given. -/
def scalarFor? (s : Typed.Schema) (enum : String) (o : WrittenOption) :
    (earlier : Typed.Scalar) → Option Typed.Scalar
  | .bool _ =>
    match o.word with
    | some "true" => some (.bool true)
    | some "false" => some (.bool false)
    | _ => none
  | .integer kind _ => (integer? o kind).map (.integer kind)
  | .float _ => (float? o).map fun bits => .float (FloatFormat.narrow bits)
  | .double _ => (float? o).map .double
  | .text _ => (o.quoted.bind decodeText).map .text
  | .bytes _ => o.quoted.map .bytes
  | .enum _ => (o.word.bind (s.enumNumber? enum)).map .enum

/-- What a field holds in place of a single value once a written value is set in it.  Any text
between braces puts an empty message of the field in place of a message. -/
def valueFor? (s : Typed.Schema) (f : Typed.Field) (o : WrittenOption) :
    (earlier : Typed.Content) → Option Typed.Content
  | .scalar value => (scalarFor? s f.target o value).map .scalar
  | .message _ _ => if Typed.isMessage f.type then o.braced.map fun _ => f.blank else none
  | .list _ | .map _ | .unknown _ => none

/-- What a field holds once a written value is set in it: a repeated field gets one value more, and
a map field takes any text between braces for the entry that it has by default. -/
def contentFor? (s : Typed.Schema) (f : Typed.Field) (o : WrittenOption)
    (earlier : Typed.Content) : Option Typed.Content :=
  match earlier with
  | .list _ => (valueFor? s f o f.blank).map fun value => earlier.append [value]
  | .map _ => do
    let _ ← o.braced
    let (key, value) ← s.defaultEntry? f
    return earlier.insert key value
  | .scalar _ | .message _ _ | .unknown _ => valueFor? s f o earlier

/-- The field of a message of type `type` that one part of a path names in a scope. -/
def fieldOfPart (p : Pool) (v : Visibility) (scope type : String) (path : List PathPart)
    (part : PathPart) : Except LoadFault Typed.Field :=
  if part.isExtension then do
    let d ← v.lookup scope part.name
    match d.kind with
    | .extension f =>
      let extended := String.ofList ((f.extendee.getD "").toList.drop 1)
      if extended = type then .ok (p.ofExtension d.file f)
      else .error (.foreignExtension d.name type extended)
    | _ => .error (.notAnExtension part.name)
  else
    match (p.schemaOf type).named? type part.name with
    | some f => .ok f
    | none => .error (.undefinedOption (pathText path))

/-- The message `m` of type `type` with a field set to a written value.  The path to the message is
given, and what is left of the path to the field. -/
def setAlong (p : Pool) (v : Visibility) (scope : String) (o : WrittenOption) (type : String)
    (m : Typed.Message) (path : List PathPart) : List PathPart → Except LoadFault Typed.Message
  | [] => .ok m
  | part :: rest => do
    let path := path ++ [part]
    let f ← fieldOfPart p v scope type path part
    let s := p.schemaOf type
    if rest = [] then
      if !f.repeated && m.has f then .error (.optionAlreadySet (pathText path))
      else
        match contentFor? s f o (m.content f) with
        | none => .error (.optionValueMismatch (pathText path) (s.typeText f) o.valueText)
        | some c => .ok (m.assign s type f c)
    else
      match m.content f with
      | .message inner fields => do
        let fields ← setAlong p v scope o inner fields path rest
        return m.assign s type f (.message inner fields)
      | _ => .error (.optionNotAMessage (pathText path) (s.typeText f))

/-- The option message `m` of type `type` with an option set that is written in a scope. -/
def setOption (p : Pool) (v : Visibility) (scope type : String) (m : Typed.Message)
    (o : WrittenOption) : Except LoadFault Typed.Message :=
  setAlong p v scope o type m [] o.path

end ProtoPhp.Pool
