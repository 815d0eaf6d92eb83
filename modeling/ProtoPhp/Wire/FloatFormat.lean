/-
Floating-point formats.

A floating-point number is kept as its bits: a sign, an exponent and a fraction.
The magnitudes of a format grow with their bits, and infinity follows the
largest finite one.  A quotient is therefore rounded by counting the steps below
it, and a count that leaves its binade ends up at the right bits by itself.

* `FloatFormat.round` — the magnitude nearest to a quotient, of two the even one;
* `FloatFormat.ofInt`, `FloatFormat.ofDecimal`, `FloatFormat.narrow` — numbers in a format;
* `FloatFormat.same` — equality of numbers: NaN differs from all, the two zeros are equal.
-/
import ProtoPhp.Wire.Power

namespace ProtoPhp.Wire

/-- The integer nearest to a quotient; of two such integers the even one. -/
def roundDiv (num den : Nat) : Nat :=
  let below := num / den
  if 2 * (num % den) < den then below
  else if 2 * (num % den) = den then below + below % 2
  else below + 1

/-- The exponent of the largest power of two that is at most `num / den`. -/
def logDiv (num den : Nat) : Int :=
  let e : Int := num.log2 - den.log2
  if den * 2 ^ e.toNat ≤ num * 2 ^ (-e).toNat then e else e - 1

/-- A floating-point format, given by the widths of its parts. -/
structure FloatFormat where
  fractionBits : Nat
  exponentBits : Nat
  deriving Repr, DecidableEq, Inhabited

namespace FloatFormat

/-- The format with 64 bits. -/
def binary64 : FloatFormat := ⟨52, 11⟩

/-- The format with 32 bits. -/
def binary32 : FloatFormat := ⟨23, 8⟩

/-- The bit of the minus sign; the bits of a magnitude lie below it. -/
def signBit (f : FloatFormat) : Nat := 2 ^ (f.exponentBits + f.fractionBits)

/-- The infinite magnitude. -/
def infinity (f : FloatFormat) : Nat := (2 ^ f.exponentBits - 1) * 2 ^ f.fractionBits

/-- The magnitude of a quiet NaN. -/
def quiet (f : FloatFormat) : Nat := f.infinity + 2 ^ (f.fractionBits - 1)

/-- The exponent of the smallest positive magnitude, which is a power of two. -/
def lowest (f : FloatFormat) : Int := 2 - 2 ^ (f.exponentBits - 1) - f.fractionBits

/-- A number has a minus sign. -/
def isNegative (f : FloatFormat) (bits : Nat) : Bool := bits / f.signBit % 2 = 1

/-- The magnitude of a number. -/
def magnitude (f : FloatFormat) (bits : Nat) : Nat := bits % f.signBit

/-- Is not a number. -/
def isNaN (f : FloatFormat) (bits : Nat) : Bool := f.infinity < f.magnitude bits

/-- The two are equal as numbers. -/
def same (f : FloatFormat) (a b : Nat) : Bool :=
  !f.isNaN a && !f.isNaN b && (a == b || (f.magnitude a == 0 && f.magnitude b == 0))

/-- The number with a sign and a magnitude. -/
def signed (f : FloatFormat) (negative : Bool) (magnitude : Nat) : Nat :=
  if negative then f.signBit + magnitude else magnitude

/-- The `m` and the `q` of a finite magnitude `m * 2 ^ q`. -/
def parts (f : FloatFormat) (bits : Nat) : Nat × Int :=
  let exponent := f.magnitude bits / 2 ^ f.fractionBits
  let fraction := bits % 2 ^ f.fractionBits
  if exponent = 0 then (fraction, f.lowest)
  else (2 ^ f.fractionBits + fraction, f.lowest + exponent - 1)

/-- The magnitude nearest to `num / den`. -/
def round (f : FloatFormat) (num den : Nat) : Nat :=
  if num = 0 then 0
  else
    let unit := max f.lowest (logDiv num den - f.fractionBits)
    let steps := roundDiv (num * 2 ^ (-unit).toNat) (den * 2 ^ unit.toNat)
    min f.infinity ((unit - f.lowest).toNat * 2 ^ f.fractionBits + steps)

/-- The number nearest to an integer. -/
def ofInt (f : FloatFormat) (n : Int) : Nat := f.signed (n < 0) (f.round n.natAbs 1)

/-- The magnitude nearest to `d * 10 ^ k`.  What is far outside the range of every format is not
computed. -/
def ofDecimal (f : FloatFormat) (d : Nat) (k : Int) : Nat :=
  let size := (Nat.toDigits 10 d).length + k
  if d = 0 ∨ size < -400 then 0
  else if 400 < size then f.infinity
  else f.round (d * 10 ^ k.toNat) (10 ^ (-k).toNat)

/-- A number of 64 bits in 32 bits.  A NaN keeps the upper part of its fraction and becomes a quiet
one. -/
def narrow (bits : Nat) : Nat :=
  let magnitude := binary64.magnitude bits
  binary32.signed (binary64.isNegative bits) <|
    if binary64.isNaN bits then
      binary32.quiet + bits % 2 ^ binary64.fractionBits / 2 ^ 29 % 2 ^ 22
    else if magnitude = binary64.infinity then binary32.infinity
    else
      let (m, q) := binary64.parts bits
      binary32.round (m * 2 ^ q.toNat) (2 ^ (-q).toNat)

end FloatFormat

end ProtoPhp.Wire
