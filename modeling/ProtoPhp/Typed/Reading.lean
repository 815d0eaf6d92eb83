/-
Reading messages of a type.

Records are read one by one, and each changes what the message holds for its
field.  The records of one message may come in several pieces, which are merged.
Messages may nest a hundred deep; an entry of a map field takes no level, and
neither does a record of an unknown field, unless it is a group.  The fields of a
group come straight from the input, up to the end key of the group.

* `Typed.readFields` — a message with more records;
* `Typed.readContent`, `Typed.readValue`, `Typed.readEntry` — what one record brings to a field;
* `Typed.decode` — the message that a byte string encodes.
-/
import ProtoPhp.Typed.Message

namespace ProtoPhp.Typed

open Wire

/-- Something that was read, with what is left of an input of length `bound`. -/
abbrev Read (α : Type) (bound : Nat) : Type := { r : α × Bytes // r.2.length ≤ bound }

/-- Reads a value that is no message.  Of values with the layout of the type, only bytes that are no
UTF-8 are refused. -/
def readScalarOf (type : Descriptor.FieldType) (input : Bytes) :
    Except Fault (Read Scalar input.length) :=
  match h : readScalar (layout type) input with
  | .error e => .error e
  | .ok (payload, rest) =>
    match Scalar.ofPayload? type payload with
    | none => .error .invalidUtf8
    | some value => .ok ⟨(value, rest), Nat.le_of_lt (readScalar_length h)⟩

/-- The values in a packed record.  Every value of a packable type has a meaning, so none is left
out. -/
def scalarsOf (type : Descriptor.FieldType) (bytes : Bytes) : Except Fault (List Scalar) := do
  return (← unpack (layout type) bytes).filterMap (Scalar.ofPayload? type)

mutual

/-- The message `m` of type `type` with the records of an input, in which messages may nest `depth`
deep.  The records of a group end at the end key with its number, any others with the input. -/
def readFields (s : Schema) (depth : Nat) (type : String) (group : Option Nat) (m : Message)
    (input : Bytes) : Except Fault (Read Message input.length) :=
  if input = [] ∧ group = none then .ok ⟨(m, input), Nat.le_refl _⟩
  else
    match hk : readKey input with
    | .error e => .error e
    | .ok (key, rest) =>
      have shorter := readKey_length hk
      if key.type = .endGroup ∧ group ≠ none then
        if group = some key.number then .ok ⟨(m, rest), Nat.le_of_lt shorter⟩
        else .error .unexpectedEndGroup
      else
        match s.field? type key.number with
        | none =>
          match hp : readPayload 0 depth key rest with
          | .error e => .error e
          | .ok (record, rest') =>
            have shorter' := readPayload_length hp
            match readFields s depth type group (m.keep key.number record.shorten) rest' with
            | .error e => .error e
            | .ok ⟨r, h⟩ => .ok ⟨r, by omega⟩
        | some f =>
          match readContent s depth f (m.content f) key rest with
          | .error e => .error e
          | .ok ⟨(c, rest'), h⟩ =>
            have shorter' : rest'.length ≤ rest.length := h
            match readFields s depth type group (m.assign s type f c) rest' with
            | .error e => .error e
            | .ok ⟨r, h'⟩ => .ok ⟨r, by omega⟩
termination_by (input.length, 0)

/-- What a field holds once a record is added to it, whose key is given.  Entries of map fields come
as byte strings, whatever their keys say. -/
def readContent (s : Schema) (depth : Nat) (f : Field) (c : Content) (key : Key) (input : Bytes) :
    Except Fault (Read Content input.length) :=
  if f.isMap then
    match hp : readScalar .lengthDelimited input with
    | .error e => .error e
    | .ok (payload, rest) =>
      have _inside := readScalar_inner_length hp
      have left := Nat.le_of_lt (readScalar_length hp)
      match s.entryFields? f with
      | none => .ok ⟨(c, rest), left⟩
      | some (key, value) =>
        match readEntry s depth key value (.zero key.type) value.absent payload.inner with
        | .error e => .error e
        | .ok (k, v) => .ok ⟨(c.insert k v, rest), left⟩
  else if f.isPackedIn key then
    match hp : readScalar .lengthDelimited input with
    | .error e => .error e
    | .ok (payload, rest) =>
      match scalarsOf f.type payload.inner with
      | .error e => .error e
      | .ok values =>
        .ok ⟨(c.append (values.map .scalar), rest), Nat.le_of_lt (readScalar_length hp)⟩
  else if f.repeated then
    match readValue s depth f [] key input with
    | .error e => .error e
    | .ok ⟨(value, rest), h⟩ => .ok ⟨(c.append [value], rest), h⟩
  else readValue s depth f c.fields key input
termination_by (input.length, 2)

/-- One value of a field, whose key is given.  A message joins the fields `fields`. -/
def readValue (s : Schema) (depth : Nat) (f : Field) (fields : Message) (key : Key)
    (input : Bytes) : Except Fault (Read Content input.length) :=
  if key.type ≠ layout f.type then .error (.unexpectedWireType key.type (layout f.type))
  else if isMessage f.type then
    match depth with
    | 0 => .error .recursionLimit
    | depth + 1 =>
      if f.type = .group then
        match readFields s depth f.target (some key.number) fields input with
        | .error e => .error e
        | .ok ⟨(m, rest), h⟩ => .ok ⟨(.message f.target m, rest), h⟩
      else
        match hp : readScalar .lengthDelimited input with
        | .error e => .error e
        | .ok (payload, rest) =>
          have _inside := readScalar_inner_length hp
          match readFields s depth f.target none fields payload.inner with
          | .error e => .error e
          | .ok ⟨(m, _), _⟩ =>
            .ok ⟨(.message f.target m, rest), Nat.le_of_lt (readScalar_length hp)⟩
  else
    match readScalarOf f.type input with
    | .error e => .error e
    | .ok ⟨(value, rest), h⟩ => .ok ⟨(.scalar value, rest), h⟩
termination_by (input.length, 1)

/-- The key and the value of an entry of a map field, which start as `k` and `v`.  An entry has one
key, whatever the field of the key says, and other records in it are skipped. -/
def readEntry (s : Schema) (depth : Nat) (key value : Field) (k : Scalar) (v : Content)
    (input : Bytes) : Except Fault (Scalar × Content) :=
  if input = [] then .ok (k, v)
  else
    match hk : readKey input with
    | .error e => .error e
    | .ok (⟨number, type⟩, rest) =>
      have _shorter := readKey_length hk
      if number = 1 then
        if type ≠ layout key.type then .error (.unexpectedWireType type (layout key.type))
        else
          match readScalarOf key.type rest with
          | .error e => .error e
          | .ok ⟨(k, rest'), h⟩ =>
            have _shorter' : rest'.length ≤ rest.length := h
            readEntry s depth key value k v rest'
      else if number = 2 then
        match readContent s depth value v ⟨number, type⟩ rest with
        | .error e => .error e
        | .ok ⟨(v, rest'), h⟩ =>
          have _shorter' : rest'.length ≤ rest.length := h
          readEntry s depth key value k v rest'
      else
        match hp : readPayload 1 depth ⟨number, type⟩ rest with
        | .error e => .error e
        | .ok (_, rest') =>
          have _shorter' := readPayload_length hp
          readEntry s depth key value k v rest'
termination_by (input.length, 0)

end

/-- How deep messages may nest. -/
def maxDepth : Nat := 100

/-- The message of type `type` that a byte string encodes. -/
def decode (s : Schema) (type : String) (input : Bytes) : Except Fault Message :=
  (readFields s maxDepth type none [] input).map (·.1.1)

end ProtoPhp.Typed
