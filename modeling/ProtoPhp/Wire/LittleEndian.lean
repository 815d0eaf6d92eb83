/-
Numbers of a fixed width.

A number of fixed width is written byte by byte, the lowest byte first.

* `Wire.ofLittleEndian_littleEndian` — a number reads back, cut to the width.
-/
import ProtoPhp.Wire.Varint

namespace ProtoPhp.Wire

/-- The number in a byte string, the lowest byte first. -/
def ofLittleEndian : Bytes → Nat
  | [] => 0
  | b :: bs => b.toNat + 256 * ofLittleEndian bs

/-- A number in `width` bytes, the lowest byte first; higher bytes are dropped. -/
def littleEndian : (width n : Nat) → Bytes
  | 0, _ => []
  | width + 1, n => UInt8.ofNat (n % 256) :: littleEndian width (n / 256)

/-- A number reads back, cut to the width. -/
theorem ofLittleEndian_littleEndian (width n : Nat) :
    ofLittleEndian (littleEndian width n) = n % 256 ^ width := by
  induction width generalizing n with
  | zero => rw [Nat.pow_zero, Nat.mod_one, littleEndian, ofLittleEndian]
  | succ width ih =>
    have hb : (UInt8.ofNat (n % 256)).toNat = n % 256 := by
      rw [UInt8.toNat_ofNat']
      omega
    rw [littleEndian, ofLittleEndian, ih, hb, Nat.pow_succ, Nat.mul_comm (256 ^ width),
      Nat.mod_mul]

/-- A number in `width` bytes takes that many bytes. -/
theorem littleEndian_length (width n : Nat) : (littleEndian width n).length = width := by
  induction width generalizing n with
  | zero => rfl
  | succ width ih => rw [littleEndian, List.length_cons, ih]

end ProtoPhp.Wire
