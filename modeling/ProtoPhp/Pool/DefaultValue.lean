/-
Default values.

A default value is a text that its type must be able to read: decimal
integers in the range of the type, decimal or non-finite floating-point numbers,
`true` or `false`, escaped bytes, or the name of an enum value.  A string takes
any text and a message none.

* `DefaultValue.integer?`, `DefaultValue.float?`, `DefaultValue.unescape?` — what texts of the three
  grammars stand for;
* `DefaultValue.value?` — the value of a type that a text stands for.
-/
import ProtoPhp.Pool.Definition
import ProtoPhp.Typed.Scalar

namespace ProtoPhp.DefaultValue

open Wire

/-- The value of a non-empty list of decimal digits. -/
def digits? (cs : List Char) : Option Nat :=
  if cs ≠ [] ∧ cs.all Char.isDigit then
    some (cs.foldl (fun n c => 10 * n + (c.toNat - '0'.toNat)) 0)
  else none

/-- The value of a decimal integer; an unsigned one takes no minus sign. -/
def integer? (signed : Bool) (cs : List Char) : Option Int :=
  match cs with
  | '+' :: ds => (digits? ds).map Int.ofNat
  | '-' :: ds => if signed then (digits? ds).map fun n => -(n : Int) else none
  | ds => (digits? ds).map Int.ofNat

/-- A decimal integer that lies between two bounds; a minus sign needs a negative bound. -/
def integerIn? (first last : Int) (text : String) : Option Int :=
  (integer? (first < 0) text.toList).filter fun n => first ≤ n && n ≤ last

/-- Splits off one sign; the first part says whether it is a minus sign. -/
def splitSign : List Char → Bool × List Char
  | '+' :: cs => (false, cs)
  | '-' :: cs => (true, cs)
  | cs => (false, cs)

/-- The value of nothing, or of an exponent: a letter, perhaps a sign, and digits. -/
def exponent? : List Char → Option Int
  | [] => some 0
  | c :: cs => if c == 'e' || c == 'E' then integer? true cs else none

/-- Splits off the digits after a point, if there is one. -/
def splitFraction : List Char → List Char × List Char
  | '.' :: cs => (cs.takeWhile Char.isDigit, cs.dropWhile Char.isDigit)
  | cs => ([], cs)

/-- The value `d * 10 ^ k` of an unsigned decimal number: digits, perhaps a point among them,
perhaps an exponent. -/
def decimal? (cs : List Char) : Option (Nat × Int) := do
  let (fraction, rest) := splitFraction (cs.dropWhile Char.isDigit)
  let d ← digits? (cs.takeWhile Char.isDigit ++ fraction)
  let e ← exponent? rest
  return (d, e - fraction.length)

/-- The magnitude of a floating-point number without a sign, finite or not. -/
def magnitude? (format : FloatFormat) (cs : List Char) : Option Nat :=
  match String.ofList (cs.map Char.toLower) with
  | "inf" | "infinity" => some format.infinity
  | "nan" => some format.quiet
  | _ => (decimal? cs).map fun p => format.ofDecimal p.1 p.2

/-- The floating-point number that a text stands for. -/
def float? (format : FloatFormat) (text : String) : Option Nat :=
  let (negative, cs) := splitSign text.toList
  (magnitude? format cs).map (format.signed negative)

/-- The value of a hexadecimal digit. -/
def hexDigit? (c : Char) : Option Nat :=
  if c.isDigit then some (c.toNat - '0'.toNat)
  else if 'a' ≤ c ∧ c ≤ 'f' then some (c.toNat - 'a'.toNat + 10)
  else if 'A' ≤ c ∧ c ≤ 'F' then some (c.toNat - 'A'.toNat + 10)
  else none

/-- The byte of two hexadecimal digits, of which the first may be a plus sign instead. -/
def hexByte? (a b : Char) : Option UInt8 := do
  let high ← if a = '+' then some 0 else hexDigit? a
  return UInt8.ofNat (16 * high + (← hexDigit? b))

/-- The byte that a letter or sign behind a backslash stands for. -/
def escapedByte? : Char → Option UInt8
  | 'a' => some 0x07
  | 'b' => some 0x08
  | 't' => some 0x09
  | 'n' => some 0x0A
  | 'v' => some 0x0B
  | 'f' => some 0x0C
  | 'r' => some 0x0D
  | '\\' => some 0x5C
  | '?' => some 0x3F
  | '\'' => some 0x27
  | '"' => some 0x22
  | _ => none

/-- Is an octal digit. -/
def isOctalDigit (c : Char) : Bool := '0' ≤ c && c ≤ '7'

/-- The byte of octal digits. -/
def octalByte (cs : List Char) : UInt8 :=
  UInt8.ofNat (cs.foldl (fun n c => 8 * n + (c.toNat - '0'.toNat)) 0)

/-- The bytes that escaped text stands for.  Every backslash starts an escape: a letter or sign that
stands for one byte, up to three octal digits, or `x` and two hexadecimal digits. -/
def unescape? : List Char → Option Bytes
  | [] => some []
  | '\\' :: 'x' :: a :: b :: cs | '\\' :: 'X' :: a :: b :: cs => do
    return (← hexByte? a b) :: (← unescape? cs)
  | ['\\'] => none
  | '\\' :: c :: cs =>
    if isOctalDigit c then
      let more := (cs.take 2).takeWhile isOctalDigit
      (unescape? (cs.drop more.length)).map (octalByte (c :: more) :: ·)
    else do return (← escapedByte? c) :: (← unescape? cs)
  | c :: cs => (unescape? cs).map (encodeText (String.singleton c) ++ ·)
termination_by cs => cs.length
decreasing_by all_goals simp only [List.length_cons, List.length_drop]; omega

/-- The value of a type that a text stands for.  The enum of a field of an enum type is given. -/
def value? (type : Descriptor.FieldType) (enum : Option Descriptor.Enum) (text : String) :
    Option Typed.Scalar :=
  match type with
  | .double => (float? .binary64 text).map .double
  | .float => (float? .binary32 text).map .float
  | .bool =>
    match text with
    | "true" => some (.bool true)
    | "false" => some (.bool false)
    | _ => none
  | .string => some (.text text)
  | .bytes => (unescape? text.toList).map .bytes
  | .enum => do
    let value ← (← enum).values.find? (·.name == text)
    return .enum value.number
  | .message | .group => none
  | type => do
    let kind ← Typed.IntegerKind.of? type
    return .integer kind (← integerIn? kind.first kind.last text)

/-- The text is a value of the type.  The enum of a field of an enum type is given. -/
def isValid (type : Descriptor.FieldType) (enum : Option Descriptor.Enum) (text : String) : Bool :=
  (value? type enum text).isSome

end ProtoPhp.DefaultValue
