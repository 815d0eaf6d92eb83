/-
Byte strings in quotes.

A byte string is shown between double quotes.  A quote, a backslash, a tab and
the ends of lines are escaped by a letter or sign; any other byte that does not
print in ASCII is escaped by its three octal digits.

* `Text.escapeByte` — a byte as it is shown;
* `Text.quoteBytes` — a byte string as it is shown.
-/
namespace ProtoPhp.Text

/-- Prints in ASCII. -/
def isPrintable (b : UInt8) : Bool := 0x20 ≤ b && b ≤ 0x7E

/-- The three octal digits of a byte. -/
def octalDigits (b : UInt8) : List Char :=
  [b / 64, b / 8 % 8, b % 8].map fun d => Char.ofNat ('0'.toNat + d.toNat)

/-- A byte as it is shown between quotes. -/
def escapeByte (b : UInt8) : List Char :=
  if b = 0x09 then ['\\', 't']
  else if b = 0x0A then ['\\', 'n']
  else if b = 0x0D then ['\\', 'r']
  else if b = 0x22 || b = 0x27 || b = 0x5C then ['\\', Char.ofNat b.toNat]
  else if isPrintable b then [Char.ofNat b.toNat]
  else '\\' :: octalDigits b

/-- A byte string between double quotes. -/
def quoteBytes (bytes : List UInt8) : String :=
  "\"" ++ String.ofList (bytes.flatMap escapeByte) ++ "\""

end ProtoPhp.Text
