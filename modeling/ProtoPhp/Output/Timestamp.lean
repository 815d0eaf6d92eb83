/-
The date in the header of generated files.

Years have at least four digits; years above 9999 carry a plus sign and years
before the first one a minus sign.  A leap second is given by a thousand and
more milliseconds and is written as second sixty.
-/
namespace ProtoPhp

/-- A point in time on the calendar. -/
structure Timestamp where
  year : Int
  month : Nat
  day : Nat
  hour : Nat
  minute : Nat
  second : Nat
  millisecond : Nat
  deriving Repr, DecidableEq, Inhabited

namespace Timestamp

/-- A number with at least `width` digits. -/
def padded (width n : Nat) : String :=
  let digits := Nat.toDigits 10 n
  String.ofList (List.replicate (width - digits.length) '0' ++ digits)

/-- The year with its sign where it has one. -/
def yearText (year : Int) : String :=
  (if year < 0 then "-" else if 9999 < year then "+" else "") ++ padded 4 year.natAbs

/-- The second, counting a leap second as one more. -/
def secondText (t : Timestamp) : String :=
  padded 2 (if 1000 ≤ t.millisecond then t.second + 1 else t.second)

/-- The date and the time of day. -/
protected def toString (t : Timestamp) : String :=
  yearText t.year ++ "-" ++ padded 2 t.month ++ "-" ++ padded 2 t.day ++ " " ++
    padded 2 t.hour ++ ":" ++ padded 2 t.minute ++ ":" ++ t.secondText

instance : ToString Timestamp := ⟨Timestamp.toString⟩

end Timestamp

end ProtoPhp
