/-
Numbers on the wire.

A number is written in groups of seven bits, the lowest group first, and every
byte but the last has its high bit set.  A reader takes at most ten bytes, of
which the tenth may be at most one, so that the value fits in 64 bits.

* `Wire.readVarint_length` — reading uses up at least one byte;
* `Wire.readVarint_writeVarint` — what is written reads back, whatever follows it.
-/
import ProtoPhp.Wire.DecodeError
import ProtoPhp.Wire.Power

namespace ProtoPhp.Wire

/-- A byte string. -/
abbrev Bytes := List UInt8

/-- Reads a number of at most `left` bytes, of which the last possible one may be at most one. -/
def readGroups : Nat → Bytes → Except Fault (Nat × Bytes)
  | 0, _ => .error .invalidVarint
  | _ + 1, [] => .error .invalidVarint
  | left + 1, b :: bs =>
    if b.toNat < 128 then
      if left = 0 ∧ 1 < b.toNat then .error .invalidVarint else .ok (b.toNat, bs)
    else
      match readGroups left bs with
      | .ok (n, rest) => .ok (b.toNat - 128 + 128 * n, rest)
      | .error f => .error f

/-- Reads a number from the start of the input. -/
def readVarint (input : Bytes) : Except Fault (Nat × Bytes) := readGroups 10 input

/-- Writes a number. -/
def writeVarint (n : Nat) : Bytes :=
  if n < 128 then [UInt8.ofNat n] else UInt8.ofNat (n % 128 + 128) :: writeVarint (n / 128)
termination_by n

theorem readGroups_length {left : Nat} {input rest : Bytes} {n : Nat}
    (h : readGroups left input = .ok (n, rest)) : rest.length < input.length := by
  induction left generalizing input n with
  | zero => simp [readGroups] at h
  | succ left ih =>
    cases input with
    | nil => simp [readGroups] at h
    | cons b bs =>
      simp only [readGroups] at h
      split at h
      · split at h
        · cases h
        · cases h
          exact Nat.lt_succ_self _
      · split at h
        · rename_i hr
          cases h
          exact Nat.lt_succ_of_lt (ih hr)
        · cases h

/-- Reading a number uses up at least one byte. -/
theorem readVarint_length {input rest : Bytes} {n : Nat}
    (h : readVarint input = .ok (n, rest)) : rest.length < input.length :=
  readGroups_length h

theorem readGroups_writeVarint (left n : Nat) (h : n < 2 * 128 ^ left) (rest : Bytes) :
    readGroups (left + 1) (writeVarint n ++ rest) = .ok (n, rest) := by
  induction left generalizing n with
  | zero =>
    have hn : n < 2 := by simpa using h
    rw [writeVarint, if_pos (by omega)]
    have hb : (UInt8.ofNat n).toNat = n := by
      rw [UInt8.toNat_ofNat']
      omega
    simp only [List.singleton_append, readGroups, hb]
    rw [if_pos (by omega), if_neg (by omega)]
  | succ left ih =>
    rw [writeVarint]
    by_cases hn : n < 128
    · -- One byte, which is not the last possible one.
      have hb : (UInt8.ofNat n).toNat = n := by
        rw [UInt8.toNat_ofNat']
        omega
      simp only [if_pos hn, List.singleton_append, readGroups, hb]
      rw [if_neg (by omega)]
    · -- The lowest seven bits, then the rest with one byte less to go.
      have hb : (UInt8.ofNat (n % 128 + 128)).toNat = n % 128 + 128 := by
        rw [UInt8.toNat_ofNat']
        omega
      have hq : n / 128 < 2 * 128 ^ left := by
        rw [Nat.pow_succ] at h
        omega
      rw [if_neg hn, List.cons_append, readGroups, hb, if_neg (by omega), ih _ hq]
      simp only [Except.ok.injEq, Prod.mk.injEq, and_true]
      omega

/-- A number of 64 bits reads back from its written form, whatever follows it. -/
theorem readVarint_writeVarint (n : Nat) (h : n < 2 ^ 64) (rest : Bytes) :
    readVarint (writeVarint n ++ rest) = .ok (n, rest) :=
  readGroups_writeVarint 9 n (by simpa using h) rest

end ProtoPhp.Wire
