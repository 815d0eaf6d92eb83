/-
The fields of an encoded message.

A message is a sequence of records: a key, which holds the number of a field
and the layout of its value, then the value.  Groups have no length; a group
lasts until the end key with its number, and groups nest.

* `Wire.readKey_length`, `Wire.readPayload_length` — reading makes the input shorter;
* `Wire.readPayload`, `Wire.unpack` — the value after a key, and the values packed into one;
* `Wire.writeRecord` — a key and the value after it;
* `Wire.shortenRecords` — records with keys and numbers in as few bytes as possible;
* `Wire.Key.ofNat_toNat` — a key reads back from the number that stands for it.
-/
import ProtoPhp.Wire.Varint

namespace ProtoPhp.Wire

/-- The number of a field and the layout of its value. -/
structure Key where
  number : Nat
  type : WireType
  deriving Repr, DecidableEq, Inhabited

/-- A value as it is laid out on the wire. -/
inductive Payload where
  | varint (n : Nat)
  | fixed64 (bytes : Bytes)
  | bytes (bytes : Bytes)
  /-- The records inside a group. -/
  | group (bytes : Bytes)
  | fixed32 (bytes : Bytes)
  deriving Repr, DecidableEq, Inhabited

/-- The number of a wire type in keys. -/
def WireType.code : WireType → Nat
  | .varint => 0
  | .fixed64 => 1
  | .lengthDelimited => 2
  | .startGroup => 3
  | .endGroup => 4
  | .fixed32 => 5

/-- The wire type with a number. -/
def WireType.ofCode? : Nat → Option WireType
  | 0 => some .varint
  | 1 => some .fixed64
  | 2 => some .lengthDelimited
  | 3 => some .startGroup
  | 4 => some .endGroup
  | 5 => some .fixed32
  | _ => none

/-- The key that a number stands for. -/
def Key.ofNat (n : Nat) : Except Fault Key :=
  if 2 ^ 32 ≤ n then .error (.invalidKey n)
  else
    match WireType.ofCode? (n % 8) with
    | none => .error (.invalidWireType (n % 8))
    | some type => if n / 8 = 0 then .error .zeroTag else .ok ⟨n / 8, type⟩

/-- The number that stands for a key. -/
def Key.toNat (key : Key) : Nat := 8 * key.number + key.type.code

/-- A key reads back from the number that stands for it. -/
theorem Key.ofNat_toNat (key : Key) (positive : 0 < key.number) (small : key.number < 2 ^ 29) :
    ofNat key.toNat = .ok key := by
  obtain ⟨number, type⟩ := key
  simp only at positive small
  have code : type.code < 6 := by cases type <;> decide
  have low : (8 * number + type.code) % 8 = type.code := by omega
  have high : (8 * number + type.code) / 8 = number := by omega
  have back : WireType.ofCode? type.code = some type := by cases type <;> rfl
  simp only [ofNat, toNat, low, high, back]
  rw [if_neg (by omega), if_neg (by omega)]

/-- Reads a key from the start of the input. -/
def readKey (input : Bytes) : Except Fault (Key × Bytes) :=
  match readVarint input with
  | .error f => .error f
  | .ok (n, rest) =>
    match Key.ofNat n with
    | .error f => .error f
    | .ok key => .ok (key, rest)

/-- Splits the input after a number of bytes. -/
def cut (n : Nat) (input : Bytes) : Except Fault (Bytes × Bytes) :=
  if n ≤ input.length then .ok (input.splitAt n) else .error .bufferUnderflow

/-- Reads a value that is no group. -/
def readScalar (type : WireType) (input : Bytes) : Except Fault (Payload × Bytes) :=
  match type with
  | .varint =>
    match readVarint input with
    | .error f => .error f
    | .ok (n, rest) => .ok (.varint n, rest)
  | .fixed64 =>
    match cut 8 input with
    | .error f => .error f
    | .ok (bytes, rest) => .ok (.fixed64 bytes, rest)
  | .fixed32 =>
    match cut 4 input with
    | .error f => .error f
    | .ok (bytes, rest) => .ok (.fixed32 bytes, rest)
  | .lengthDelimited =>
    match readVarint input with
    | .error f => .error f
    | .ok (n, rest) =>
      match cut n rest with
      | .error f => .error f
      | .ok (bytes, rest) => .ok (.bytes bytes, rest)
  | .startGroup | .endGroup => .error .unexpectedEndGroup

theorem readKey_length {input rest : Bytes} {key : Key} (h : readKey input = .ok (key, rest)) :
    rest.length < input.length := by
  simp only [readKey] at h
  split at h
  · cases h
  · rename_i hr
    split at h
    · cases h
    · cases h
      exact readVarint_length hr

theorem cut_length {n : Nat} {input bytes rest : Bytes} (h : cut n input = .ok (bytes, rest)) :
    rest.length + n = input.length := by
  simp only [cut, List.splitAt_eq] at h
  split at h
  · cases h
    rw [List.length_drop]
    omega
  · cases h

theorem readScalar_length {type : WireType} {input rest : Bytes} {payload : Payload}
    (h : readScalar type input = .ok (payload, rest)) : rest.length < input.length := by
  cases type <;> simp only [readScalar] at h
  case varint =>
    split at h
    · cases h
    · rename_i hr
      cases h
      exact readVarint_length hr
  case fixed64 =>
    split at h
    · cases h
    · rename_i hr
      cases h
      have := cut_length hr
      omega
  case fixed32 =>
    split at h
    · cases h
    · rename_i hr
      cases h
      have := cut_length hr
      omega
  case lengthDelimited =>
    split at h
    · cases h
    · rename_i hr
      split at h
      · cases h
      · rename_i hc
        cases h
        have := cut_length hc
        have := readVarint_length hr
        omega
  case startGroup => cases h
  case endGroup => cases h

/-- Finds the end of open groups, the innermost first: what is left from the last end key on, and
what is left after it.  Each open group takes one level from the depth that is left, and a value
needs `room` levels. -/
def readGroupEnd (room depth : Nat) (groups : List Nat) (input : Bytes) :
    Except Fault (Bytes × Bytes) :=
  match groups with
  | [] => .error .unexpectedEndGroup
  | number :: outer =>
    match _ : readKey input with
    | .error f => .error f
    | .ok (key, rest) =>
      if key.type = .endGroup then
        if key.number ≠ number then .error .unexpectedEndGroup
        else if outer = [] then .ok (input, rest)
        else readGroupEnd room (depth + 1) outer rest
      else if key.type = .startGroup then
        if depth = 0 then .error .recursionLimit
        else readGroupEnd room (depth - 1) (key.number :: groups) rest
      else if depth < room then .error .recursionLimit
      else
        match _ : readScalar key.type rest with
        | .error f => .error f
        | .ok (_, rest') => readGroupEnd room depth groups rest'
termination_by input.length
decreasing_by
  · exact readKey_length (by assumption)
  · exact readKey_length (by assumption)
  · exact Nat.lt_trans (readScalar_length (by assumption)) (readKey_length (by assumption))

/-- Reads the value after a key, where groups may nest `depth` deep and a value that is no group
needs `room` levels. -/
def readPayload (room depth : Nat) (key : Key) (input : Bytes) : Except Fault (Payload × Bytes) :=
  if key.type = .startGroup then
    if depth = 0 then .error .recursionLimit
    else
      match readGroupEnd room (depth - 1) [key.number] input with
      | .error f => .error f
      | .ok (last, rest) => .ok (.group (input.take (input.length - last.length)), rest)
  else if depth < room then .error .recursionLimit
  else readScalar key.type input

/-- The values of a packed record. -/
def unpack (type : WireType) (input : Bytes) : Except Fault (List Payload) :=
  if input = [] then .ok []
  else
    match _ : readScalar type input with
    | .error f => .error f
    | .ok (payload, rest) =>
      match unpack type rest with
      | .error f => .error f
      | .ok payloads => .ok (payload :: payloads)
termination_by input.length
decreasing_by
  exact readScalar_length (by assumption)

/-- Writes a key. -/
def writeKey (number : Nat) (type : WireType) : Bytes := writeVarint (Key.toNat ⟨number, type⟩)

/-- Writes a value without its key. -/
def Payload.write : Payload → Bytes
  | .varint n => writeVarint n
  | .bytes b => writeVarint b.length ++ b
  | .fixed64 b | .fixed32 b | .group b => b

/-- Writes a value under the number of its field. -/
def writeRecord (number : Nat) (payload : Payload) : Bytes :=
  match payload with
  | .varint _ => writeKey number .varint ++ payload.write
  | .fixed64 _ => writeKey number .fixed64 ++ payload.write
  | .bytes _ => writeKey number .lengthDelimited ++ payload.write
  | .group _ => writeKey number .startGroup ++ payload.write ++ writeKey number .endGroup
  | .fixed32 _ => writeKey number .fixed32 ++ payload.write

/-- The records inside a group, with keys, numbers and lengths in as few bytes as possible.  What is
no record stays as it is. -/
def shortenRecords (input : Bytes) : Bytes :=
  match _ : readKey input with
  | .error _ => input
  | .ok (key, rest) =>
    if key.type = .startGroup ∨ key.type = .endGroup then
      writeKey key.number key.type ++ shortenRecords rest
    else
      match _ : readScalar key.type rest with
      | .error _ => input
      | .ok (payload, rest') => writeRecord key.number payload ++ shortenRecords rest'
termination_by input.length
decreasing_by
  · exact readKey_length (by assumption)
  · exact Nat.lt_trans (readScalar_length (by assumption)) (readKey_length (by assumption))

/-- A value with the records inside it shortened, if it is a group. -/
def Payload.shorten : Payload → Payload
  | .group records => .group (shortenRecords records)
  | payload => payload

theorem readGroupEnd_length {room depth : Nat} {groups : List Nat} {input last rest : Bytes}
    (h : readGroupEnd room depth groups input = .ok (last, rest)) :
    rest.length ≤ input.length := by
  induction hn : input.length using Nat.strongRecOn generalizing depth groups input with
  | ind n ih =>
    subst hn
    -- One key is read, then perhaps a value; the rest is shorter either way.
    rw [readGroupEnd.eq_def] at h
    split at h
    · cases h
    · split at h
      · cases h
      · rename_i hk
        have hlt := readKey_length hk
        split at h
        · split at h
          · cases h
          · split at h
            · cases h
              exact Nat.le_of_lt hlt
            · exact Nat.le_trans (ih _ hlt h rfl) (Nat.le_of_lt hlt)
        · split at h
          · split at h
            · cases h
            · exact Nat.le_trans (ih _ hlt h rfl) (Nat.le_of_lt hlt)
          · split at h
            · cases h
            · split at h
              · cases h
              · rename_i hs
                have hlt' := Nat.lt_trans (readScalar_length hs) hlt
                exact Nat.le_trans (ih _ hlt' h rfl) (Nat.le_of_lt hlt')

theorem readPayload_length {room depth : Nat} {key : Key} {input rest : Bytes} {payload : Payload}
    (h : readPayload room depth key input = .ok (payload, rest)) :
    rest.length ≤ input.length := by
  simp only [readPayload] at h
  split at h
  · split at h
    · cases h
    · split at h
      · cases h
      · rename_i hg
        cases h
        exact readGroupEnd_length hg
  · split at h
    · cases h
    · exact Nat.le_of_lt (readScalar_length h)

/-- The records or bytes inside a value. -/
def Payload.inner : Payload → Bytes
  | .bytes b | .group b => b
  | .varint _ | .fixed64 _ | .fixed32 _ => []

theorem cut_inner_length {n : Nat} {input bytes rest : Bytes}
    (h : cut n input = .ok (bytes, rest)) : bytes.length ≤ input.length := by
  simp only [cut, List.splitAt_eq] at h
  split at h
  · cases h
    exact List.length_take_le' _ _
  · cases h

/-- What is inside a value that is no group is shorter than the input. -/
theorem readScalar_inner_length {type : WireType} {input rest : Bytes} {payload : Payload}
    (h : readScalar type input = .ok (payload, rest)) :
    payload.inner.length < input.length := by
  have left := readScalar_length h
  cases type <;> simp only [readScalar] at h
  case varint | fixed64 | fixed32 =>
    split at h
    · cases h
    · cases h
      exact Nat.zero_lt_of_lt left
  case lengthDelimited =>
    split at h
    · cases h
    · rename_i hr
      split at h
      · cases h
      · rename_i hc
        cases h
        exact Nat.lt_of_le_of_lt (cut_inner_length hc) (readVarint_length hr)
  case startGroup | endGroup => cases h

end ProtoPhp.Wire
