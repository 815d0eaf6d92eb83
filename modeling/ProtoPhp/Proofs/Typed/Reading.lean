/-
Reading written single values.

A record of a field that holds one value puts this value in the place of what the
field held before, and leaves the other fields alone.  So a message that was
written record by record holds, for each field, the value of its last record.

* `Typed.Scalar.hasType_of_toPayload?` — a value is laid out as its type says;
* `Typed.readFrom` — a message with the records of an input behind those it has;
* `Typed.readFrom_single` — what one record does;
* `Typed.decode_singles` — what is read from a run of records.
-/
import Mathlib.Data.List.Forall2
import ProtoPhp.Proofs.Wire.Written
import ProtoPhp.Typed.Reading

namespace ProtoPhp.Typed

open Descriptor Wire

/-- The field holds one value that is no message, and is in no oneof. -/
structure Field.IsSingle (f : Field) : Prop where
  noMap : f.isMap = false
  once : f.repeated = false
  noMessage : isMessage f.type = false
  alone : f.oneof = none

instance (f : Field) : Decidable f.IsSingle :=
  decidable_of_iff (f.isMap = false ∧ f.repeated = false ∧ isMessage f.type = false ∧ f.oneof = none)
    ⟨fun ⟨a, b, c, d⟩ => ⟨a, b, c, d⟩, fun ⟨a, b, c, d⟩ => ⟨a, b, c, d⟩⟩

theorem Scalar.hasType_integerPayload {type : FieldType} {kind : IntegerKind}
    (h : IntegerKind.of? type = some kind) (n : Int) :
    (integerPayload type n).HasType (layout type) := by
  cases type <;> cases h
  case fixed32.refl | sfixed32.refl => exact .fixed32 (littleEndian_length 4 _)
  case fixed64.refl | sfixed64.refl => exact .fixed64 (littleEndian_length 8 _)
  all_goals exact .varint _

/-- A value that is written under a type is laid out as the type says. -/
theorem Scalar.hasType_of_toPayload? {type : FieldType} {value : Scalar} {payload : Payload}
    (h : value.toPayload? type = some payload) : payload.HasType (layout type) := by
  cases value with
  | bool b =>
    cases type <;> cases h
    exact .varint _
  | text s =>
    cases type <;> cases h
    exact .bytes _
  | bytes b =>
    cases type <;> cases h
    exact .bytes _
  | float bits =>
    cases type <;> cases h
    exact .fixed32 (littleEndian_length 4 bits)
  | double bits =>
    cases type <;> cases h
    exact .fixed64 (littleEndian_length 8 bits)
  | enum n =>
    cases type <;> cases h
    exact .varint _
  | integer kind n =>
    cases type <;> cases kind <;> cases h <;> exact hasType_integerPayload rfl n

/-- A message of type `type` with the records of an input. -/
def readFrom (s : Schema) (type : String) (m : Message) (input : Bytes) : Except Fault Message :=
  (readFields s maxDepth type none m input).map (·.1.1)

/-- A record of a field of a message type that holds one value, and the number with the value. -/
inductive Sets (s : Schema) (type : String) : Nat × Payload → Nat × Scalar → Prop where
  | single {f : Field} {payload : Payload} {value : Scalar} :
      s.field? type f.number = some f → f.IsSingle → 0 < f.number → f.number < 2 ^ 29 →
      payload.HasType (layout f.type) → Scalar.ofPayload? f.type payload = some value →
      Sets s type (f.number, payload) (f.number, value)

/-- The last value with a number. -/
def lastValue (values : List (Nat × Scalar)) (number : Nat) : Option Scalar :=
  (values.filter (·.1 == number)).getLast?.map (·.2)

theorem lastValue_cons (v : Nat × Scalar) (values : List (Nat × Scalar)) (number : Nat) :
    lastValue (v :: values) number =
      (lastValue values number <|> if number = v.1 then some v.2 else none) := by
  rw [lastValue, lastValue]
  by_cases h : number = v.1
  · rw [List.filter_cons_of_pos (by simp [h]), List.getLast?_cons, if_pos h]
    cases (values.filter (·.1 == number)).getLast? <;> rfl
  · rw [List.filter_cons_of_neg (by simpa using Ne.symm h), if_neg h, Option.orElse_eq_orElse]
    simp

section

variable {s : Schema} {type : String} {m : Message} {f : Field} {key : Key} {input rest rest' : Bytes}

theorem readFrom_nil : readFrom s type m [] = .ok m := by
  rw [readFrom, readFields, if_pos ⟨rfl, rfl⟩]
  rfl

/-- One step of reading, once the key is read and its field is known. -/
theorem readFrom_field {c : Content} {h : rest'.length ≤ rest.length}
    (hkey : readKey input = .ok (key, rest)) (hfield : s.field? type key.number = some f)
    (hcontent : readContent s maxDepth f (m.content f) key rest = .ok ⟨(c, rest'), h⟩) :
    readFrom s type m input = readFrom s type (m.assign s type f c) rest' := by
  -- Where a key is read there is input.
  have nonempty : input ≠ [] := by
    rintro rfl
    exact absurd (readKey_length hkey) (Nat.not_lt_zero _)
  rw [readFrom, readFields, if_neg (by simp [nonempty])]
  split
  · rename_i hk
    rw [hkey] at hk
    cases hk
  · rename_i hk
    rw [hkey] at hk
    cases hk
    rw [if_neg (by simp)]
    split
    · rename_i hnone
      rw [hfield] at hnone
      cases hnone
    · rename_i hsome
      rw [hfield] at hsome
      cases hsome
      rw [hcontent, readFrom]
      dsimp only
      cases readFields s maxDepth type none (m.assign s type f c) rest' <;> rfl

/-- A value that is no message is read behind its key. -/
theorem readContent_single {payload : Payload} {value : Scalar} (hsingle : f.IsSingle)
    (htype : key.type = layout f.type) (hread : readScalar key.type rest = .ok (payload, rest'))
    (hvalue : Scalar.ofPayload? f.type payload = some value) (depth : Nat) (c : Content) :
    ∃ h, readContent s depth f c key rest = .ok ⟨(.scalar value, rest'), h⟩ := by
  rw [htype] at hread
  have hscalar : readScalarOf f.type rest =
      .ok ⟨(value, rest'), Nat.le_of_lt (readScalar_length hread)⟩ := by
    rw [readScalarOf]
    split
    · rename_i hr
      rw [hread] at hr
      cases hr
    · rename_i hr
      rw [hread] at hr
      cases hr
      rw [hvalue]
  refine ⟨Nat.le_of_lt (readScalar_length hread), ?_⟩
  have hpacked : f.isPackedIn key = false := by rw [Field.isPackedIn, hsingle.once]; rfl
  rw [readContent, if_neg (by simp [hsingle.noMap]), if_neg (by simp [hpacked]),
    if_neg (by simp [hsingle.once]), readValue.eq_def, if_neg (by simp [htype]),
    if_neg (by simp [hsingle.noMessage]), hscalar]

/-- A record of a field with one value puts the value in the place of what was there. -/
theorem readFrom_single {payload : Payload} {value : Scalar}
    (hfield : s.field? type f.number = some f) (hsingle : f.IsSingle) (positive : 0 < f.number)
    (small : f.number < 2 ^ 29) (htype : payload.HasType (layout f.type))
    (hvalue : Scalar.ofPayload? f.type payload = some value) (fits : payload.leading < 2 ^ 64) :
    readFrom s type m (writeRecord f.number payload ++ rest) =
      readFrom s type (m.put f.number (.scalar value)) rest := by
  rw [htype.writeRecord_eq, List.append_assoc]
  have hkey := readKey_writeKey positive small (layout f.type) (payload.write ++ rest)
  have hlayout : (Key.mk f.number (layout f.type)).type = layout f.type := rfl
  obtain ⟨h, hcontent⟩ := readContent_single hsingle hlayout (htype.readScalar_write fits rest)
    hvalue maxDepth (m.content f)
  rw [readFrom_field hkey hfield hcontent]
  -- A field in no oneof leaves what is beside it.
  have hbeside : Message.clearBeside s type f m = m := by
    rw [Message.clearBeside, hsingle.alone]
    simp
  rw [Message.assign, hbeside]

end

/-- Behind what a message holds, written records of single values put their own last values. -/
theorem readFrom_singles {s : Schema} {type : String} {records : List (Nat × Payload)}
    {values : List (Nat × Scalar)} (h : List.Forall₂ (Sets s type) records values)
    (fits : ∀ r ∈ records, r.2.leading < 2 ^ 64) (m : Message) :
    ∃ m', readFrom s type m (writeRecords records) = .ok m' ∧
      ∀ number, m'.get? number =
        ((lastValue values number).map Content.scalar <|> m.get? number) := by
  induction h generalizing m with
  | nil => exact ⟨m, readFrom_nil, fun _ => rfl⟩
  | @cons _ _ records values hfirst _ ih =>
    obtain @⟨f, payload, value, hfield, hsingle, positive, small, htype, hvalue⟩ := hfirst
    rw [List.forall_mem_cons] at fits
    obtain ⟨m', hread, hget⟩ := ih fits.2 (m.put f.number (.scalar value))
    refine ⟨m', ?_, fun number => ?_⟩
    · rw [writeRecords, List.flatMap_cons, ← writeRecords,
        readFrom_single hfield hsingle positive small htype hvalue fits.1, hread]
    · rw [hget, Message.get?_put, lastValue_cons]
      cases lastValue values number with
      | some last => rfl
      | none => by_cases hnumber : number = f.number <;> simp [hnumber]

/-- A message that was written as records of single values holds the last value of each field. -/
theorem decode_singles {s : Schema} {type : String} {records : List (Nat × Payload)}
    {values : List (Nat × Scalar)} (h : List.Forall₂ (Sets s type) records values)
    (fits : ∀ r ∈ records, r.2.leading < 2 ^ 64) :
    ∃ m, decode s type (writeRecords records) = .ok m ∧
      ∀ number, m.get? number = (lastValue values number).map Content.scalar := by
  obtain ⟨m, hread, hget⟩ := readFrom_singles h fits []
  refine ⟨m, hread, fun number => ?_⟩
  rw [hget]
  cases lastValue values number <;> rfl

end ProtoPhp.Typed
