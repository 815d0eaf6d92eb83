/-
Writing messages of a type.

Fields, extensions and the records of unknown fields come in the order of their
numbers.  A field that reads as an absent one is left out, unless an explicit
default value counts as set; an entry of a map field leaves out its key and its
value by the same rule, except that a key is compared with the zero of its type.

* `Typed.encode` — the records of a message;
* `Typed.encodeContent` — the records of what it holds for a field.
-/
import ProtoPhp.Typed.Message

namespace ProtoPhp.Typed

open Wire

/-- A record of a field with a scalar, if it is of the kind that the type of the field has. -/
def scalarRecord (f : Field) (value : Scalar) : Bytes :=
  ((value.toPayload? f.type).map (writeRecord f.number)).getD []

/-- A record of a field with the records of a message. -/
def messageRecord (f : Field) (records : Bytes) : Bytes :=
  writeRecord f.number (if f.type = .group then .group records else .bytes records)

/-- A value inside a packed record. -/
def packedValue (f : Field) : Content → Bytes
  | .scalar value => ((value.toPayload? f.type).map Payload.write).getD []
  | .message _ _ | .list _ | .map _ | .unknown _ => []

/-- The record of the key of an entry of a map field. -/
def keyRecord (f : Field) (key : Scalar) : Bytes :=
  if f.hasPresence || key != .zero f.type then scalarRecord f key else []

/-- The records that are kept for an unknown field. -/
def unknownRecords (number : Nat) : Content → Bytes
  | .unknown records => records.flatMap (writeRecord number)
  | .scalar _ | .message _ _ | .list _ | .map _ => []

mutual

/-- The records of what a message holds for a field. -/
def encodeContent (s : Schema) (f : Field) : Content → Bytes
  | .scalar value => scalarRecord f value
  | .message type fields => messageRecord f (encode s type fields)
  | .list values =>
    if f.packed then writeRecord f.number (.bytes (values.flatMap (packedValue f)))
    else encodeValues s f values
  | .map entries =>
    match s.entryFields? f with
    | none => []
    | some (key, value) => encodeEntries s f.number key value entries
  | .unknown _ => []

/-- The records of the values of a repeated field. -/
def encodeValues (s : Schema) (f : Field) : List Content → Bytes
  | [] => []
  | value :: values => encodeContent s f value ++ encodeValues s f values

/-- The records of the entries of a map field with a number, whose keys and values are given as
fields. -/
def encodeEntries (s : Schema) (number : Nat) (key value : Field) :
    List (Scalar × Content) → Bytes
  | [] => []
  | (k, v) :: rest =>
    let valueRecords := if v.isSet value then encodeContent s value v else []
    writeRecord number (.bytes (keyRecord key k ++ valueRecords)) ++
      encodeEntries s number key value rest

/-- The records of a message of type `type`. -/
def encode (s : Schema) (type : String) : List (Nat × Content) → Bytes
  | [] => []
  | (number, content) :: rest =>
    let records :=
      match s.field? type number with
      | none => unknownRecords number content
      | some f => if content.isSet f then encodeContent s f content else []
    records ++ encode s type rest

end

end ProtoPhp.Typed
