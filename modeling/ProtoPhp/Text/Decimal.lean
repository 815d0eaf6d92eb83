/-
Shortest decimals.

A floating-point number of 64 bits stands for `m * 2 ^ q` and for every real
that rounds to it.  Its decimal text has as few digits as reading it back
allows: of the grids of multiples of a power of ten, the coarsest with a point
among those reals is taken, and of two such points the nearer, or the upper
one.  All digits are written out, without an exponent.

* `Text.Binary64.shortest?` — the digits and the power of ten;
* `Text.Binary64.text` — the decimal text, also of infinities and NaN.
-/
import ProtoPhp.Wire.FloatFormat

namespace ProtoPhp.Text

open Wire.FloatFormat (binary64)

/-- The magnitude `m * 2 ^ q` of a finite floating-point number.  `isPower` says that the next
number below is nearer than the next one above. -/
structure Binary64 where
  m : Nat
  q : Int
  isPower : Bool
  deriving Repr, DecidableEq, Inhabited

namespace Binary64

/-- The magnitude in the bits of a finite floating-point number. -/
def ofBits (bits : Nat) : Binary64 :=
  let (m, q) := binary64.parts bits
  ⟨m, q, m = 2 ^ binary64.fractionBits && binary64.lowest < q⟩

/-- The number of steps of `2 ^ q` in one step of `10 ^ k`, as a fraction. -/
def scale (x : Binary64) (k : Int) : Nat × Nat :=
  (10 ^ k.toNat * 2 ^ (-x.q).toNat, 10 ^ (-k).toNat * 2 ^ x.q.toNat)

/-- `d * 10 ^ k` rounds to the number: it is at most half a step away.  Of the two ends only those
of an even number round to it. -/
def holds (x : Binary64) (d : Nat) (k : Int) : Bool :=
  let (num, den) := x.scale k
  let low := (4 * x.m - if x.isPower then 1 else 2) * den
  let high := (4 * x.m + 2) * den
  let point := 4 * d * num
  if x.m % 2 = 0 then low ≤ point && point ≤ high else low < point && point < high

/-- The nearest multiple of `10 ^ k` that rounds to the number. -/
def onGrid? (x : Binary64) (k : Int) : Option (Nat × Int) :=
  let (num, den) := x.scale k
  let below := x.m * den / num
  let candidates :=
    if 2 * (x.m * den % num) < num then [below, below + 1] else [below + 1, below]
  (candidates.find? (x.holds · k)).map (·, k)

/-- The powers of ten among whose multiples a decimal is sought, the largest first. -/
def grids : List Int := (List.range 634).map fun (i : Nat) => 309 - (i : Int)

/-- The digits and the power of ten of the shortest decimal. -/
def shortest? (x : Binary64) : Option (Nat × Int) := grids.findSome? x.onGrid?

/-- `d * 10 ^ k` with all its digits. -/
def positional (d : Nat) (k : Int) : String :=
  let digits := Nat.toDigits 10 d
  if 0 ≤ k then String.ofList (digits ++ List.replicate k.toNat '0')
  else
    let padded := List.replicate ((-k).toNat + 1 - digits.length) '0' ++ digits
    let whole := padded.length - (-k).toNat
    String.ofList (padded.take whole ++ '.' :: padded.drop whole)

/-- The decimal text of a magnitude. -/
def magnitude (x : Binary64) : String :=
  if x.m = 0 then "0" else x.shortest?.elim "" fun p => positional p.1 p.2

/-- The decimal text of the floating-point number with the given bits. -/
def text (bits : Nat) : String :=
  let sign := if binary64.isNegative bits then "-" else ""
  if binary64.isNaN bits then "NaN"
  else if binary64.magnitude bits = binary64.infinity then sign ++ "inf"
  else sign ++ (ofBits bits).magnitude

end Binary64

end ProtoPhp.Text
