/-
Values that are no messages.

A scalar is a truth value, an integer of one of four kinds, a floating-point
number, a text, a byte string or the number of an enum value.  Several types
hold integers of the same kind and differ only in how they are written.

* `Typed.unzigzag_zigzag` — the zigzag order loses no integer;
* `Typed.Scalar.ofPayload?`, `Typed.Scalar.toPayload?` — scalars under a type;
* `Typed.Scalar.ofPayload?_of_toPayload?` — a scalar reads back under its type;
* `Typed.Scalar.same` — equality of scalars, by which absent fields are told.
-/
import ProtoPhp.Descriptor.Basic
import ProtoPhp.Wire.FloatFormat
import ProtoPhp.Wire.LittleEndian
import ProtoPhp.Wire.Record
import ProtoPhp.Wire.Utf8

namespace ProtoPhp.Typed

open Descriptor Wire

/-- A kind of integers. -/
inductive IntegerKind where
  | int32
  | uint32
  | int64
  | uint64
  deriving Repr, DecidableEq, Inhabited

namespace IntegerKind

/-- The kind of the integers of a type. -/
def of? : FieldType → Option IntegerKind
  | .int32 | .sint32 | .sfixed32 => some int32
  | .uint32 | .fixed32 => some uint32
  | .int64 | .sint64 | .sfixed64 => some int64
  | .uint64 | .fixed64 => some uint64
  | .double | .float | .bool | .string | .group | .message | .bytes | .enum => none

/-- The smallest integer of a kind. -/
def first : IntegerKind → Int
  | int32 => -(2 ^ 31)
  | int64 => -(2 ^ 63)
  | uint32 | uint64 => 0

/-- The largest integer of a kind. -/
def last : IntegerKind → Int
  | int32 => 2 ^ 31 - 1
  | uint32 => 2 ^ 32 - 1
  | int64 => 2 ^ 63 - 1
  | uint64 => 2 ^ 64 - 1

/-- The integer of a kind that differs from an integer by a multiple of their number. -/
def cut : IntegerKind → Int → Int
  | int32, n => Int.bmod n (2 ^ 32)
  | uint32, n => n % 2 ^ 32
  | int64, n => Int.bmod n (2 ^ 64)
  | uint64, n => n % 2 ^ 64

/-- An integer of a kind is not changed by cutting it to that kind. -/
theorem cut_of_bounds {kind : IntegerKind} {n : Int} (h : kind.first ≤ n ∧ n ≤ kind.last) :
    kind.cut n = n := by
  cases kind <;> simp only [first, last] at h <;> simp only [cut, Int.bmod] <;> omega

end IntegerKind

/-- A number in 64 bits; negative numbers count down from the top. -/
def word (n : Int) : Nat := (n % 2 ^ 64).toNat

/-- Cutting sees no difference between an integer and its 64 bits. -/
theorem IntegerKind.cut_word (kind : IntegerKind) (n : Int) : kind.cut (word n) = kind.cut n := by
  cases kind <;> simp only [cut, word, Int.bmod] <;> omega

/-- The place of an integer in zigzag order: zero, minus one, one, minus two, and so on. -/
def zigzag (n : Int) : Nat := if 0 ≤ n then 2 * n.toNat else 2 * (-n).toNat - 1

/-- The integer with a place in zigzag order. -/
def unzigzag (n : Nat) : Int := if n % 2 = 0 then (n / 2 : Nat) else -(n / 2 : Nat) - 1

/-- The zigzag order loses no integer. -/
theorem unzigzag_zigzag (n : Int) : unzigzag (zigzag n) = n := by
  unfold zigzag unzigzag
  by_cases h : 0 ≤ n
  · rw [if_pos h]
    split <;> omega
  · rw [if_neg h]
    split <;> omega

/-- A value that is no message. -/
inductive Scalar where
  | bool (value : Bool)
  | integer (kind : IntegerKind) (value : Int)
  /-- The bits of a floating-point number of 32 bits. -/
  | float (bits : Nat)
  /-- The bits of a floating-point number of 64 bits. -/
  | double (bits : Nat)
  | text (value : String)
  | bytes (value : Bytes)
  /-- The number of an enum value. -/
  | enum (number : Int)
  deriving Repr, DecidableEq, Inhabited

namespace Scalar

/-- The zero of a type of scalars. -/
def zero (type : FieldType) : Scalar :=
  match type, IntegerKind.of? type with
  | _, some kind => .integer kind 0
  | .double, _ => .double 0
  | .float, _ => .float 0
  | .bool, _ => .bool false
  | .string, _ => .text ""
  | .enum, _ => .enum 0
  | _, _ => .bytes []

/-- The two are equal; floating-point numbers are compared as numbers. -/
def same : Scalar → Scalar → Bool
  | .float a, .float b => FloatFormat.binary32.same a b
  | .double a, .double b => FloatFormat.binary64.same a b
  | a, b => a == b

/-- Is of a kind that can be the key of an entry of a map field. -/
def isKey : Scalar → Bool
  | .bool _ | .integer _ _ | .text _ => true
  | .float _ | .double _ | .bytes _ | .enum _ => false

/-- A value that is laid out as its type says; bytes that are no UTF-8 are no text. -/
def ofPayload? (type : FieldType) (payload : Payload) : Option Scalar :=
  match type, payload with
  | .bool, .varint n => some (.bool (n != 0))
  | .enum, .varint n => some (.enum (IntegerKind.int32.cut n))
  | .sint32, .varint n => some (.integer .int32 (unzigzag (n % 2 ^ 32)))
  | .sint64, .varint n => some (.integer .int64 (unzigzag n))
  | .double, .fixed64 b => some (.double (ofLittleEndian b))
  | .float, .fixed32 b => some (.float (ofLittleEndian b))
  | .string, .bytes b => (decodeText b).map .text
  | .bytes, .bytes b => some (.bytes b)
  | type, .varint n => (IntegerKind.of? type).map fun kind => .integer kind (kind.cut n)
  | type, .fixed32 b | type, .fixed64 b =>
    (IntegerKind.of? type).map fun kind => .integer kind (kind.cut (ofLittleEndian b))
  | _, _ => none

/-- An integer as a type of integers lays it out. -/
def integerPayload (type : FieldType) (n : Int) : Payload :=
  match type with
  | .sint32 | .sint64 => .varint (zigzag n)
  | .fixed32 | .sfixed32 => .fixed32 (littleEndian 4 (word n))
  | .fixed64 | .sfixed64 => .fixed64 (littleEndian 8 (word n))
  | _ => .varint (word n)

/-- A scalar as a type lays it out, if it is of the kind that the type has. -/
def toPayload? (type : FieldType) (value : Scalar) : Option Payload :=
  match type, value with
  | .bool, .bool b => some (.varint (if b then 1 else 0))
  | .enum, .enum n => some (.varint (word n))
  | .double, .double bits => some (.fixed64 (littleEndian 8 bits))
  | .float, .float bits => some (.fixed32 (littleEndian 4 bits))
  | .string, .text s => some (.bytes (encodeText s))
  | .bytes, .bytes b => some (.bytes b)
  | type, .integer kind n =>
    if IntegerKind.of? type = some kind then some (integerPayload type n) else none
  | _, _ => none

/-- A scalar is one of those that its kind has. -/
def InRange : Scalar → Prop
  | .integer kind n => kind.first ≤ n ∧ n ≤ kind.last
  | .enum n => IntegerKind.int32.first ≤ n ∧ n ≤ IntegerKind.int32.last
  | .float bits => bits < 2 ^ 32
  | .double bits => bits < 2 ^ 64
  | .bool _ | .text _ | .bytes _ => True

/-- An integer of the kind that a type has reads back under that type. -/
theorem ofPayload?_integerPayload {type : FieldType} {kind : IntegerKind} {n : Int}
    (h : IntegerKind.of? type = some kind) (bounds : kind.first ≤ n ∧ n ≤ kind.last) :
    ofPayload? type (integerPayload type n) = some (.integer kind n) := by
  have cut := IntegerKind.cut_of_bounds bounds
  cases type <;> cases h
  case int32.refl | uint32.refl | int64.refl | uint64.refl =>
    simp only [integerPayload, ofPayload?, IntegerKind.of?, Option.map_some,
      IntegerKind.cut_word, cut]
  case fixed32.refl | sfixed32.refl | fixed64.refl | sfixed64.refl =>
    simp only [IntegerKind.first, IntegerKind.last] at bounds
    simp only [integerPayload, ofPayload?, IntegerKind.of?, Option.map_some,
      ofLittleEndian_littleEndian, IntegerKind.cut, word, Int.bmod, Option.some.injEq,
      integer.injEq, true_and]
    omega
  case sint64.refl =>
    rw [integerPayload, ofPayload?, unzigzag_zigzag]
  case sint32.refl =>
    have small : zigzag n < 2 ^ 32 := by
      simp only [IntegerKind.first, IntegerKind.last] at bounds
      unfold zigzag
      split <;> omega
    rw [integerPayload, ofPayload?, Nat.mod_eq_of_lt small, unzigzag_zigzag]

/-- A scalar reads back under the type that it is written under. -/
theorem ofPayload?_of_toPayload? {type : FieldType} {value : Scalar} {payload : Payload}
    (range : value.InRange) (h : value.toPayload? type = some payload) :
    ofPayload? type payload = some value := by
  cases value with
  | bool b =>
    cases type <;> cases h
    cases b <;> rfl
  | text s =>
    cases type <;> cases h
    simp only [ofPayload?, decodeText_encodeText, Option.map_some]
  | bytes b =>
    cases type <;> cases h
    rfl
  | float bits =>
    cases type <;> cases h
    have back : ofLittleEndian (littleEndian 4 bits) = bits := by
      rw [ofLittleEndian_littleEndian]
      exact Nat.mod_eq_of_lt range
    rw [ofPayload?, back]
  | double bits =>
    cases type <;> cases h
    have back : ofLittleEndian (littleEndian 8 bits) = bits := by
      rw [ofLittleEndian_littleEndian]
      exact Nat.mod_eq_of_lt range
    rw [ofPayload?, back]
  | enum n =>
    cases type <;> cases h
    simp only [ofPayload?, IntegerKind.cut_word, IntegerKind.cut_of_bounds range]
  | integer kind n =>
    cases type <;> cases kind <;> cases h <;> exact ofPayload?_integerPayload rfl range

end Scalar

end ProtoPhp.Typed
