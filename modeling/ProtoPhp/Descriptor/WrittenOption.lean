/-
Options as a schema file writes them.

An option that nobody has set yet names a field by a path and gives its value in
the form in which it is written: a word, a number, quoted bytes or text between
braces.  The forms are kept side by side, since the type of the field decides
which of them count.

* `Descriptor.writtenOptions` — the written options in an option message;
* `Descriptor.WrittenOption.valueText` — the value as error texts show it.
-/
import ProtoPhp.Descriptor.Standard
import ProtoPhp.Text.Decimal
import ProtoPhp.Text.Dotted
import ProtoPhp.Text.Escaped
import ProtoPhp.Wire.LittleEndian

namespace ProtoPhp.Descriptor

open Wire

/-- One step on the way to a field: the name of a field, or the written name of an extension. -/
structure PathPart where
  name : String
  isExtension : Bool := false
  deriving Repr, DecidableEq, Inhabited

/-- An option as it is written. -/
structure WrittenOption where
  path : List PathPart
  word : Option String := none
  /-- A number without a minus sign. -/
  positive : Option Nat := none
  negative : Option Int := none
  /-- The bits of a floating-point number. -/
  double : Option Nat := none
  quoted : Option Bytes := none
  /-- Text between braces, which nobody reads. -/
  braced : Option String := none
  deriving Repr, DecidableEq, Inhabited

/-- A part of a path: an extension stands in parentheses. -/
def PathPart.text (part : PathPart) : String :=
  if part.isExtension then "(" ++ part.name ++ ")" else part.name

/-- A path, its parts joined by dots; an empty part at the start takes no dot behind it. -/
def pathText (path : List PathPart) : String :=
  path.foldl (fun text part => Text.qualify text part.text) ""

namespace WrittenOption

/-- The value as it is written; of several forms the first one shows. -/
def valueText (o : WrittenOption) : String :=
  (o.word <|> o.positive.map toString <|> o.negative.map toString <|>
    o.double.map Text.Binary64.text <|> o.quoted.map Text.quoteBytes <|> o.braced).getD ""

/-- The written option in decoded fields. -/
def ofFields (fields : Fields) : WrittenOption where
  path := (fields.messages 2).map fun part => ⟨(part.text? 1).getD "", part.flag 2⟩
  word := fields.text? 3
  positive := fields.number? 4
  negative := (fields.number? 5).map fun n => Int.bmod n (2 ^ 64)
  double := (fields.fixed? 6).map ofLittleEndian
  quoted := fields.bytes? 7
  braced := fields.text? 8

end WrittenOption

/-- The written options in an option message. -/
def writtenOptions (type : String) (options : EncodedOptions) : List WrittenOption :=
  ((decodeOptions type options).messages uninterpretedNumber).map WrittenOption.ofFields

end ProtoPhp.Descriptor
