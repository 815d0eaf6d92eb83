/-
Written records read back.

The decoder takes numbers of 64 bits, so that it reads a written message back as
long as no length in it is greater.  The layout itself has no such bound.  Next
to the decoder stands one that takes numbers of any size, and reads every
written message back.

* `Wire.Holds` — a record and the field that a decoder finds in it;
* `Wire.decode_writeRecords` — the decoder finds the fields of written records;
* `Wire.decodeWide` — decoding with numbers of any size;
* `Wire.decodeWide_writeRecords` — it finds the fields of all written records.
-/
import Mathlib.Data.List.Forall2
import ProtoPhp.Proofs.Wire.Layout

namespace ProtoPhp.Wire

/-- The layout of a payload that is no group. -/
inductive Payload.HasType : Payload → WireType → Prop where
  | varint (n : Nat) : HasType (.varint n) .varint
  | fixed64 {b : Bytes} : b.length = 8 → HasType (.fixed64 b) .fixed64
  | bytes (b : Bytes) : HasType (.bytes b) .lengthDelimited
  | fixed32 {b : Bytes} : b.length = 4 → HasType (.fixed32 b) .fixed32

/-- The number at the start of a written payload: its value or its length. -/
def Payload.leading : Payload → Nat
  | .varint n => n
  | .bytes b => b.length
  | .fixed64 _ | .fixed32 _ | .group _ => 0

/-- Writes records one after the other, each given by the number of its field and its payload. -/
def writeRecords (records : List (Nat × Payload)) : Bytes :=
  records.flatMap fun r => writeRecord r.1 r.2

/-- A record of a known field, and the field that a decoder finds there. -/
inductive Holds (shapes : Nat → Option FieldShape)
    (inner : String → Bytes → Except DecodeError Fields) : Nat × Payload → Nat × Value → Prop where
  | known {number : Nat} {payload : Payload} {value : Value} {shape : FieldShape} :
      0 < number → number < 2 ^ 29 → shapes number = some shape →
      payload.HasType shape.kind.wireType → shape.values inner payload = .ok [value] →
      Holds shapes inner (number, payload) (number, value)

theorem Payload.HasType.writeRecord_eq {payload : Payload} {type : WireType}
    (h : payload.HasType type) (number : Nat) :
    writeRecord number payload = writeKey number type ++ payload.write := by
  cases h <;> rfl

/-! ### Numbers of 64 bits -/

section

variable {shapes : Nat → Option FieldShape} {depth : Nat}
  {inner : String → Bytes → Except DecodeError Fields}

theorem readKey_writeKey {number : Nat} (positive : 0 < number) (small : number < 2 ^ 29)
    (type : WireType) (rest : Bytes) :
    readKey (writeKey number type ++ rest) = .ok (⟨number, type⟩, rest) := by
  have fits : Key.toNat ⟨number, type⟩ < 2 ^ 64 := by
    have code : type.code < 6 := by cases type <;> decide
    simp only [Key.toNat]
    omega
  rw [readKey, writeKey, readVarint_writeVarint _ fits]
  simp only [Key.ofNat_toNat ⟨number, type⟩ positive small]

theorem Payload.HasType.readScalar_write {payload : Payload} {type : WireType}
    (h : payload.HasType type) (fits : payload.leading < 2 ^ 64) (rest : Bytes) :
    readScalar type (payload.write ++ rest) = .ok (payload, rest) := by
  cases h with
  | varint n => rw [readScalar, write, readVarint_writeVarint n fits]
  | fixed64 hlength => rw [readScalar, write, ← hlength, cut_append]
  | fixed32 hlength => rw [readScalar, write, ← hlength, cut_append]
  | bytes b =>
    rw [readScalar, write, List.append_assoc, readVarint_writeVarint b.length fits]
    simp only [cut_append]

/-- The lengths in a written message are bounded by its own. -/
theorem leading_lt_of_length_lt {records : List (Nat × Payload)} {bound : Nat}
    (hlength : (writeRecords records).length < bound)
    (hnumbers : ∀ r ∈ records, ∀ n, r.2 = .varint n → n < bound) :
    ∀ r ∈ records, r.2.leading < bound := by
  rintro ⟨number, payload⟩ hr
  obtain ⟨before, after, rfl⟩ := List.append_of_mem hr
  cases payload with
  | varint n => exact hnumbers _ hr n rfl
  | bytes b =>
    simp only [writeRecords, List.flatMap_append, List.flatMap_cons, writeRecord, Payload.write,
      List.length_append] at hlength
    simp only [Payload.leading]
    omega
  | fixed64 | fixed32 | group => exact Nat.zero_lt_of_lt hlength

/-- The decoder finds the fields of written records. -/
theorem decodeFields_writeRecords {records : List (Nat × Payload)} {fields : Fields}
    (h : List.Forall₂ (Holds shapes inner) records fields)
    (fits : ∀ r ∈ records, r.2.leading < 2 ^ 64) :
    decodeFields shapes depth inner (writeRecords records) = .ok fields := by
  induction h with
  | nil => rw [writeRecords, List.flatMap_nil, decodeFields, if_pos rfl]
  | @cons _ _ records _ hfirst _ ih =>
    obtain @⟨number, payload, value, shape, positive, small, hshape, htype, hvalue⟩ := hfirst
    rw [List.forall_mem_cons] at fits
    have hkey := readKey_writeKey positive small shape.kind.wireType
      (payload.write ++ writeRecords records)
    have hread : readValue (shapes number) depth ⟨number, shape.kind.wireType⟩
        (payload.write ++ writeRecords records) = .ok (payload, writeRecords records) := by
      rw [hshape, readValue, if_pos (.inr rfl)]
      exact htype.readScalar_write fits.1 _
    have hvalues : (shapes number).elim (.ok []) (·.values inner payload) = .ok [value] := by
      rw [hshape]
      exact hvalue
    rw [writeRecords, List.flatMap_cons, ← writeRecords, htype.writeRecord_eq, List.append_assoc,
      decodeFields_record hkey hread hvalues, ih fits.2]
    rfl

end

theorem decode_writeRecords {shapes : Shapes} {depth : Nat} {type : String}
    {records : List (Nat × Payload)} {fields : Fields}
    (h : List.Forall₂ (Holds (shapes type) (decode shapes depth)) records fields)
    (fits : ∀ r ∈ records, r.2.leading < 2 ^ 64) :
    decode shapes (depth + 1) type (writeRecords records) = .ok fields :=
  decodeFields_writeRecords h fits

/-! ### Numbers of any size -/

/-- Reads a number, in however many bytes it comes. -/
def readNumber (input : Bytes) : Except Fault (Nat × Bytes) := readGroups (input.length + 1) input

/-- Reads a value that is no group; its number may be of any size. -/
def readWide (type : WireType) (input : Bytes) : Except Fault (Payload × Bytes) :=
  match type with
  | .varint =>
    match readNumber input with
    | .error f => .error f
    | .ok (n, rest) => .ok (.varint n, rest)
  | .lengthDelimited =>
    match readNumber input with
    | .error f => .error f
    | .ok (n, rest) =>
      match cut n rest with
      | .error f => .error f
      | .ok (bytes, rest) => .ok (.bytes bytes, rest)
  | .fixed64 | .fixed32 | .startGroup | .endGroup => readScalar type input

/-- Reads a key of any size. -/
def readWideKey (input : Bytes) : Except Fault (Key × Bytes) :=
  match readNumber input with
  | .error f => .error f
  | .ok (n, rest) =>
    match WireType.ofCode? (n % 8) with
    | none => .error (.invalidWireType (n % 8))
    | some type => .ok (⟨n / 8, type⟩, rest)

theorem readWideKey_length {input rest : Bytes} {key : Key}
    (h : readWideKey input = .ok (key, rest)) : rest.length < input.length := by
  simp only [readWideKey] at h
  split at h
  · cases h
  · rename_i hn
    split at h
    · cases h
    · cases h
      exact readGroups_length hn

theorem readWide_length {type : WireType} {input rest : Bytes} {payload : Payload}
    (h : readWide type input = .ok (payload, rest)) : rest.length < input.length := by
  cases type <;> simp only [readWide] at h
  case varint =>
    split at h
    · cases h
    · rename_i hn
      cases h
      exact readGroups_length hn
  case lengthDelimited =>
    split at h
    · cases h
    · rename_i hn
      split at h
      · cases h
      · rename_i hc
        cases h
        have := cut_length hc
        have := readGroups_length hn
        omega
  all_goals exact readScalar_length h

/-- The records of a message, each with the number of its field. -/
def readRecords (input : Bytes) : Except Fault (List (Nat × Payload)) :=
  if input = [] then .ok []
  else
    match _ : readWideKey input with
    | .error f => .error f
    | .ok (key, rest) =>
      match _ : readWide key.type rest with
      | .error f => .error f
      | .ok (payload, rest') =>
        match readRecords rest' with
        | .error f => .error f
        | .ok records => .ok ((key.number, payload) :: records)
termination_by input.length
decreasing_by
  exact Nat.lt_trans (readWide_length (by assumption)) (readWideKey_length (by assumption))

/-- The known fields among the records of a message. -/
def fieldsOf (shapes : Nat → Option FieldShape)
    (inner : String → Bytes → Except DecodeError Fields) :
    List (Nat × Payload) → Except DecodeError Fields
  | [] => .ok []
  | (number, payload) :: records => do
    let values ← (shapes number).elim (.ok []) (·.values inner payload)
    let fields ← fieldsOf shapes inner records
    return values.map (number, ·) ++ fields

/-- The known fields of a message without groups, whose numbers may be of any size. -/
def decodeWide (shapes : Shapes) :
    (depth : Nat) → (type : String) → Bytes → Except DecodeError Fields
  | 0, type, input => do
    let records ← (readRecords input).mapError .ofFault
    fieldsOf (shapes type) (fun _ _ => .error (.ofFault .recursionLimit)) records
  | depth + 1, type, input => do
    let records ← (readRecords input).mapError .ofFault
    fieldsOf (shapes type) (decodeWide shapes depth) records

theorem lt_pow_length_writeVarint (n : Nat) : n < 128 ^ (writeVarint n).length := by
  induction n using writeVarint.induct with
  | case1 n hlast =>
    rw [writeVarint, if_pos hlast]
    simpa using hlast
  | case2 n hmore ih =>
    rw [writeVarint, if_neg hmore, List.length_cons, Nat.pow_succ]
    omega

/-- A number reads back from its written form, whatever its size and whatever follows it. -/
theorem readNumber_writeVarint (n : Nat) (rest : Bytes) :
    readNumber (writeVarint n ++ rest) = .ok (n, rest) := by
  have hlength : (writeVarint n).length ≤ (writeVarint n ++ rest).length := by simp
  have hpow : 128 ^ (writeVarint n).length ≤ 128 ^ (writeVarint n ++ rest).length :=
    Nat.pow_le_pow_right (by decide) hlength
  have hn := lt_pow_length_writeVarint n
  exact readGroups_writeVarint _ n (by omega) rest

theorem readWideKey_writeKey (number : Nat) (type : WireType) (rest : Bytes) :
    readWideKey (writeKey number type ++ rest) = .ok (⟨number, type⟩, rest) := by
  have code : type.code < 6 := by cases type <;> decide
  have low : Key.toNat ⟨number, type⟩ % 8 = type.code := by
    simp only [Key.toNat]
    omega
  have high : Key.toNat ⟨number, type⟩ / 8 = number := by
    simp only [Key.toNat]
    omega
  have back : WireType.ofCode? type.code = some type := by cases type <;> rfl
  rw [readWideKey, writeKey, readNumber_writeVarint]
  simp only [low, high, back]

theorem Payload.HasType.readWide_write {payload : Payload} {type : WireType}
    (h : payload.HasType type) (rest : Bytes) :
    readWide type (payload.write ++ rest) = .ok (payload, rest) := by
  cases h with
  | varint n => rw [readWide, write, readNumber_writeVarint]
  | fixed64 hlength => rw [readWide, readScalar, write, ← hlength, cut_append]
  | fixed32 hlength => rw [readWide, readScalar, write, ← hlength, cut_append]
  | bytes b =>
    rw [readWide, write, List.append_assoc, readNumber_writeVarint]
    simp only [cut_append]

/-- Written records are read one by one, whatever their sizes. -/
theorem readRecords_writeRecords (records : List (Nat × Payload))
    (h : ∀ r ∈ records, ∃ type, r.2.HasType type) :
    readRecords (writeRecords records) = .ok records := by
  induction records with
  | nil => rw [writeRecords, List.flatMap_nil, readRecords, if_pos rfl]
  | cons r records ih =>
    obtain ⟨number, payload⟩ := r
    rw [List.forall_mem_cons] at h
    obtain ⟨⟨type, htype⟩, h⟩ := h
    have hkey := readWideKey_writeKey number type (payload.write ++ writeRecords records)
    have hread := htype.readWide_write (writeRecords records)
    have nonempty : writeKey number type ++ (payload.write ++ writeRecords records) ≠ [] := by
      intro empty
      have := readWideKey_length hkey
      rw [empty] at this
      exact absurd this (Nat.not_lt_zero _)
    rw [writeRecords, List.flatMap_cons, ← writeRecords, htype.writeRecord_eq, List.append_assoc,
      readRecords, if_neg nonempty]
    split
    · rename_i hk
      rw [hkey] at hk
      cases hk
    · rename_i hk
      rw [hkey] at hk
      cases hk
      split
      · rename_i hr
        rw [hread] at hr
        cases hr
      · rename_i hr
        rw [hread] at hr
        cases hr
        rw [ih h]

section

variable {shapes : Nat → Option FieldShape} {inner : String → Bytes → Except DecodeError Fields}
  {records : List (Nat × Payload)} {fields : Fields}

theorem fieldsOf_eq (h : List.Forall₂ (Holds shapes inner) records fields) :
    fieldsOf shapes inner records = .ok fields := by
  induction h with
  | nil => rfl
  | cons hfirst _ ih =>
    obtain ⟨_, _, hshape, _, hvalue⟩ := hfirst
    rw [fieldsOf, hshape, Option.elim_some, hvalue, ih]
    rfl

theorem hasType_of_holds (h : List.Forall₂ (Holds shapes inner) records fields) :
    ∀ r ∈ records, ∃ type, r.2.HasType type := by
  induction h with
  | nil => exact fun _ hr => nomatch hr
  | cons hfirst _ ih =>
    obtain ⟨_, _, _, htype, _⟩ := hfirst
    exact List.forall_mem_cons.mpr ⟨⟨_, htype⟩, ih⟩

end

/-- The decoder with numbers of any size finds the fields of written records. -/
theorem decodeWide_writeRecords {shapes : Shapes} {depth : Nat} {type : String}
    {records : List (Nat × Payload)} {fields : Fields}
    (h : List.Forall₂ (Holds (shapes type) (decodeWide shapes depth)) records fields) :
    decodeWide shapes (depth + 1) type (writeRecords records) = .ok fields := by
  rw [decodeWide, readRecords_writeRecords records (hasType_of_holds h)]
  exact fieldsOf_eq h

end ProtoPhp.Wire
