/-
The layouts of a message on the wire.

Which byte strings are written forms of a message is said here without the
reader: a number may take more bytes than it needs, the records of different
fields may be mixed in any way, and records of unknown fields, groups among
them, may stand anywhere in between.  The reader then returns the known fields
of every such layout, in order.

* `Wire.readVarint_append`, `Wire.readKey_append` — numbers and keys are read in any layout;
* `Wire.Records.readGroupEnd_append` — a search for the end of groups passes over whole records;
* `Wire.Carries.decodeFields_eq` — the known fields of a layout are what is read from it.
-/
import ProtoPhp.Wire.Value

namespace ProtoPhp.Wire

/-- The bytes of a number, at most `left` of them. -/
inductive IsVarint : (left : Nat) → Nat → Bytes → Prop where
  | last {left : Nat} (b : UInt8) (low : b.toNat < 128) (fits : left = 0 → b.toNat ≤ 1) :
      IsVarint (left + 1) b.toNat [b]
  | more {left n : Nat} {bs : Bytes} (b : UInt8) (high : 128 ≤ b.toNat) (tail : IsVarint left n bs) :
      IsVarint (left + 1) (b.toNat - 128 + 128 * n) (b :: bs)

/-- The bytes of a key. -/
structure IsKey (key : Key) (bytes : Bytes) : Prop where
  positive : 0 < key.number
  small : key.number < 2 ^ 29
  varint : IsVarint 10 key.toNat bytes

/-- The bytes of a value that is no group. -/
inductive IsScalar : WireType → Bytes → Prop where
  | varint {n : Nat} {bytes : Bytes} : IsVarint 10 n bytes → IsScalar .varint bytes
  | fixed64 {bytes : Bytes} : bytes.length = 8 → IsScalar .fixed64 bytes
  | fixed32 {bytes : Bytes} : bytes.length = 4 → IsScalar .fixed32 bytes
  | lengthDelimited {length payload : Bytes} : IsVarint 10 payload.length length →
      IsScalar .lengthDelimited (length ++ payload)

/-- Whole records of the fields with some numbers, with values at most `depth` levels deep. -/
inductive Records : (depth : Nat) → List Nat → Bytes → Prop where
  | nil {depth : Nat} : Records depth [] []
  | scalar {depth number : Nat} {type : WireType} {key value rest : Bytes} {numbers : List Nat} :
      IsKey ⟨number, type⟩ key → IsScalar type value → Records (depth + 1) numbers rest →
      Records (depth + 1) (number :: numbers) (key ++ (value ++ rest))
  | group {depth number : Nat} {start inner stop rest : Bytes} {numbers within : List Nat} :
      IsKey ⟨number, .startGroup⟩ start → Records depth within inner →
      IsKey ⟨number, .endGroup⟩ stop → Records (depth + 1) numbers rest →
      Records (depth + 1) (number :: numbers) (start ++ (inner ++ (stop ++ rest)))

/-- The bytes of a text or of a byte string. -/
inductive IsWritten : FieldKind → Value → Bytes → Prop where
  | text (s : String) : IsWritten .text (.text s) (encodeText s)
  | bytes (b : Bytes) : IsWritten .bytes (.bytes b) b

/-- The layouts of a message with known fields: records of these fields in their order, and between
them whole records of fields that are not known. -/
inductive Carries (shapes : Nat → Option FieldShape) : Fields → Bytes → Prop where
  | nil : Carries shapes [] []
  | known {number : Nat} {shape : FieldShape} {value : Value} {fields : Fields}
      {key length payload rest : Bytes} :
      shapes number = some shape → IsWritten shape.kind value payload →
      IsKey ⟨number, .lengthDelimited⟩ key → IsVarint 10 payload.length length →
      Carries shapes fields rest →
      Carries shapes ((number, value) :: fields) (key ++ (length ++ (payload ++ rest)))
  | unknown {numbers : List Nat} {fields : Fields} {skipped rest : Bytes} :
      Records maxDepth numbers skipped → (∀ number ∈ numbers, shapes number = none) →
      Carries shapes fields rest → Carries shapes fields (skipped ++ rest)

/-! ### Numbers, keys and values -/

theorem IsVarint.readGroups_append {left n : Nat} {bytes : Bytes} (h : IsVarint left n bytes)
    (rest : Bytes) : readGroups left (bytes ++ rest) = .ok (n, rest) := by
  induction h with
  | last b low fits =>
    rw [List.singleton_append, readGroups, if_pos low, if_neg]
    intro h
    have := fits h.1
    omega
  | more b high _ ih =>
    rw [List.cons_append, readGroups, if_neg (by omega), ih]

/-- A number is read in whatever number of bytes it is written. -/
theorem readVarint_append {n : Nat} {bytes : Bytes} (h : IsVarint 10 n bytes) (rest : Bytes) :
    readVarint (bytes ++ rest) = .ok (n, rest) :=
  h.readGroups_append rest

/-- A key is read in whatever number of bytes it is written. -/
theorem readKey_append {key : Key} {bytes : Bytes} (h : IsKey key bytes) (rest : Bytes) :
    readKey (bytes ++ rest) = .ok (key, rest) := by
  rw [readKey, readVarint_append h.varint]
  simp only [Key.ofNat_toNat key h.positive h.small]

theorem cut_append (bytes rest : Bytes) : cut bytes.length (bytes ++ rest) = .ok (bytes, rest) := by
  rw [cut, if_pos (by simp), List.splitAt_eq, List.take_left, List.drop_left]

/-- A byte string is read behind its length. -/
theorem readScalar_lengthDelimited {length payload : Bytes} (h : IsVarint 10 payload.length length)
    (rest : Bytes) : readScalar .lengthDelimited (length ++ (payload ++ rest)) =
      .ok (.bytes payload, rest) := by
  rw [readScalar, readVarint_append h]
  simp only [cut_append]

theorem IsScalar.readScalar_append {type : WireType} {bytes : Bytes} (h : IsScalar type bytes)
    (rest : Bytes) : ∃ payload, readScalar type (bytes ++ rest) = .ok (payload, rest) := by
  cases h with
  | varint h => exact ⟨_, by rw [readScalar, readVarint_append h]⟩
  | fixed64 h => exact ⟨.fixed64 bytes, by rw [readScalar, ← h, cut_append]⟩
  | fixed32 h => exact ⟨.fixed32 bytes, by rw [readScalar, ← h, cut_append]⟩
  | lengthDelimited h =>
    exact ⟨_, by rw [List.append_assoc, readScalar_lengthDelimited h]⟩

theorem IsScalar.not_group {type : WireType} {bytes : Bytes} (h : IsScalar type bytes) :
    type ≠ .startGroup ∧ type ≠ .endGroup := by
  cases h <;> exact ⟨nofun, nofun⟩

/-! ### Records of unknown fields -/

section

variable {room depth number : Nat} {groups : List Nat} {key : Key} {input rest rest' : Bytes}

/-- One step of the search for the end of groups, once the key is read. -/
theorem readGroupEnd_of_readKey (hkey : readKey input = .ok (key, rest)) :
    readGroupEnd room depth (number :: groups) input =
      if key.type = .endGroup then
        if key.number ≠ number then .error .unexpectedEndGroup
        else if groups = [] then .ok (input, rest)
        else readGroupEnd room (depth + 1) groups rest
      else if key.type = .startGroup then
        if depth = 0 then .error .recursionLimit
        else readGroupEnd room (depth - 1) (key.number :: number :: groups) rest
      else if depth < room then .error .recursionLimit
      else
        match readScalar key.type rest with
        | .error f => .error f
        | .ok (_, rest') => readGroupEnd room depth (number :: groups) rest' := by
  rw [readGroupEnd]
  -- The definition keeps the equation of each match for its termination; here the key is known.
  split
  · rename_i hk
    rw [hkey] at hk
    cases hk
  · rename_i hk
    rw [hkey] at hk
    cases hk
    split
    · rfl
    · split
      · rfl
      · split
        · rfl
        · split <;> rename_i hs <;> rw [hs]

theorem readGroupEnd_scalar {payload : Payload} (hkey : readKey input = .ok (key, rest))
    (start : key.type ≠ .startGroup) (stop : key.type ≠ .endGroup) (fits : room ≤ depth)
    (hvalue : readScalar key.type rest = .ok (payload, rest')) :
    readGroupEnd room depth (number :: groups) input =
      readGroupEnd room depth (number :: groups) rest' := by
  rw [readGroupEnd_of_readKey hkey, if_neg stop, if_neg start, if_neg (by omega), hvalue]

theorem readGroupEnd_startGroup (hkey : readKey input = .ok (key, rest))
    (start : key.type = .startGroup) :
    readGroupEnd room (depth + 1) (number :: groups) input =
      readGroupEnd room depth (key.number :: number :: groups) rest := by
  rw [readGroupEnd_of_readKey hkey, if_neg (by simp [start]), if_pos start, if_neg (by omega),
    Nat.add_sub_cancel]

theorem readGroupEnd_endGroup (hkey : readKey input = .ok (key, rest))
    (stop : key.type = .endGroup) :
    readGroupEnd room depth (key.number :: groups) input =
      if groups = [] then .ok (input, rest) else readGroupEnd room (depth + 1) groups rest := by
  rw [readGroupEnd_of_readKey hkey, if_pos stop, if_neg (by simp)]

end

/-- A search for the end of groups passes over whole records. -/
theorem Records.readGroupEnd_append {depth : Nat} {numbers : List Nat} {bytes : Bytes}
    (h : Records depth numbers bytes) (number : Nat) (groups : List Nat) (rest : Bytes) :
    readGroupEnd 1 depth (number :: groups) (bytes ++ rest) =
      readGroupEnd 1 depth (number :: groups) rest := by
  induction h generalizing number groups rest with
  | nil => rfl
  | scalar hkey hvalue _ ih =>
    obtain ⟨start, stop⟩ := hvalue.not_group
    rw [List.append_assoc, List.append_assoc]
    obtain ⟨_, hread⟩ := hvalue.readScalar_append (_ ++ rest)
    rw [readGroupEnd_scalar (readKey_append hkey _) start stop (by omega) hread]
    exact ih number groups rest
  | @group depth opened _ _ _ _ _ _ hstart _ hstop _ ihInner ihRest =>
    -- The group that opens is searched first; the groups around it are still open at its end key.
    simp only [List.append_assoc]
    rw [readGroupEnd_startGroup (readKey_append hstart _) rfl, ihInner,
      readGroupEnd_endGroup (readKey_append hstop _) rfl, if_neg (List.cons_ne_nil _ _)]
    exact ihRest number groups rest

theorem readPayload_scalar {type : WireType} {value : Bytes} (h : IsScalar type value)
    (depth number : Nat) (rest : Bytes) :
    ∃ payload, readPayload 1 (depth + 1) ⟨number, type⟩ (value ++ rest) = .ok (payload, rest) := by
  obtain ⟨start, _⟩ := h.not_group
  obtain ⟨payload, hread⟩ := h.readScalar_append rest
  refine ⟨payload, ?_⟩
  rw [readPayload, if_neg start, if_neg (by omega)]
  exact hread

/-- The value of an unknown group is read up to its end key. -/
theorem readPayload_group {depth number : Nat} {within : List Nat} {inner stop : Bytes}
    (hinner : Records depth within inner) (hstop : IsKey ⟨number, .endGroup⟩ stop) (rest : Bytes) :
    readPayload 1 (depth + 1) ⟨number, .startGroup⟩ (inner ++ (stop ++ rest)) =
      .ok (.group inner, rest) := by
  rw [readPayload, if_pos rfl, if_neg (by omega), Nat.add_sub_cancel,
    hinner.readGroupEnd_append, readGroupEnd_endGroup (readKey_append hstop _) rfl, if_pos rfl]
  simp

/-! ### Messages -/

section

variable {shapes : Nat → Option FieldShape} {depth : Nat}
  {inner : String → Bytes → Except DecodeError Fields} {key : Key} {input rest rest' : Bytes}

theorem decodeFields_record {payload : Payload} {values : List Value}
    (hkey : readKey input = .ok (key, rest))
    (hvalue : readValue (shapes key.number) depth key rest = .ok (payload, rest'))
    (hvalues : (shapes key.number).elim (.ok []) (·.values inner payload) = .ok values) :
    decodeFields shapes depth inner input =
      (values.map (key.number, ·) ++ ·) <$> decodeFields shapes depth inner rest' := by
  -- Where a key is read there is input.
  have nonempty : input ≠ [] := by
    intro empty
    have := readKey_length hkey
    rw [empty] at this
    exact absurd this (Nat.not_lt_zero _)
  rw [decodeFields, if_neg nonempty]
  split
  · rename_i hk
    rw [hkey] at hk
    cases hk
  · rename_i hk
    rw [hkey] at hk
    cases hk
    split
    · rename_i hv
      rw [hvalue] at hv
      cases hv
    · rename_i hv
      rw [hvalue] at hv
      cases hv
      rw [hvalues]
      cases decodeFields shapes depth inner rest' <;> rfl

theorem decodeFields_unknown {payload : Payload} (hkey : readKey input = .ok (key, rest))
    (hshape : shapes key.number = none)
    (hvalue : readPayload 1 depth key rest = .ok (payload, rest')) :
    decodeFields shapes depth inner input = decodeFields shapes depth inner rest' := by
  have hread : readValue (shapes key.number) depth key rest = .ok (payload, rest') := by
    rw [hshape]
    exact hvalue
  have hvalues : (shapes key.number).elim (.ok []) (·.values inner payload) =
      (.ok [] : Except DecodeError (List Value)) := by
    rw [hshape]
    rfl
  rw [decodeFields_record hkey hread hvalues]
  cases decodeFields shapes depth inner rest' <;> rfl

end

/-- Whole records of unknown fields are skipped. -/
theorem Records.decodeFields_append {shapes : Nat → Option FieldShape} {depth : Nat}
    {numbers : List Nat} {bytes : Bytes} (h : Records depth numbers bytes)
    (unknown : ∀ number ∈ numbers, shapes number = none)
    (inner : String → Bytes → Except DecodeError Fields) (rest : Bytes) :
    decodeFields shapes depth inner (bytes ++ rest) = decodeFields shapes depth inner rest := by
  induction h generalizing rest with
  | nil => rfl
  | scalar hkey hvalue _ ih =>
    rw [List.forall_mem_cons] at unknown
    simp only [List.append_assoc]
    obtain ⟨_, hread⟩ := readPayload_scalar hvalue _ _ (_ ++ rest)
    rw [decodeFields_unknown (readKey_append hkey _) unknown.1 hread]
    exact ih unknown.2 rest
  | group hstart hinner hstop _ _ ih =>
    rw [List.forall_mem_cons] at unknown
    simp only [List.append_assoc]
    rw [decodeFields_unknown (readKey_append hstart _) unknown.1 (readPayload_group hinner hstop _)]
    exact ih unknown.2 rest

/-- A written text or byte string is the value of its field. -/
theorem IsWritten.values_eq {shape : FieldShape} {value : Value} {payload : Bytes}
    (h : IsWritten shape.kind value payload)
    (inner : String → Bytes → Except DecodeError Fields) :
    shape.kind.wireType = .lengthDelimited ∧ shape.values inner (.bytes payload) = .ok [value] := by
  obtain ⟨name, kind, repeated⟩ := shape
  cases h with
  | text s => exact ⟨rfl, by simp [FieldShape.values]⟩
  | bytes => exact ⟨rfl, rfl⟩

/-- The known fields of a message are read from every layout of it. -/
theorem Carries.decodeFields_eq {shapes : Nat → Option FieldShape} {fields : Fields}
    {bytes : Bytes} (h : Carries shapes fields bytes)
    (inner : String → Bytes → Except DecodeError Fields) :
    decodeFields shapes maxDepth inner bytes = .ok fields := by
  induction h with
  | nil => rw [decodeFields, if_pos rfl]
  | @known number shape value _ _ length payload rest hshape hwritten hkey hlength _ ih =>
    obtain ⟨htype, hvalues⟩ := hwritten.values_eq inner
    have hread : readValue (shapes number) maxDepth ⟨number, .lengthDelimited⟩
        (length ++ (payload ++ rest)) = .ok (.bytes payload, rest) := by
      rw [hshape, readValue, if_pos (.inr htype.symm)]
      exact readScalar_lengthDelimited hlength rest
    have hone : (shapes number).elim (.ok []) (·.values inner (.bytes payload)) = .ok [value] := by
      rw [hshape]
      exact hvalues
    rw [decodeFields_record (readKey_append hkey _) hread hone, ih]
    rfl
  | unknown hrecords hunknown _ ih => rw [hrecords.decodeFields_append hunknown, ih]

/-- Decoding returns the known fields of every layout. -/
theorem Carries.decode_eq {shapes : Shapes} {type : String} {fields : Fields} {bytes : Bytes}
    (h : Carries (shapes type) fields bytes) :
    decode shapes maxDepth type bytes = .ok fields :=
  h.decodeFields_eq _

end ProtoPhp.Wire
