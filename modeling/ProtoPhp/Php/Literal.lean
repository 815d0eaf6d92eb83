/-
PHP literals.

A string literal stands between double quotes, with a backslash before each
character that would end it, start an escape or start an interpolation.

* `Php.quote` — the literal of a text;
* `Php.boolLiteral` — the literal of a boolean default.
-/
import ProtoPhp.Text.Blank

namespace ProtoPhp.Php

/-- A character that cannot stand for itself between double quotes. -/
def needsEscape (c : Char) : Bool := c == '"' || c == '\\' || c == '$'

/-- The characters that stand for one character between double quotes. -/
def escapeChar (c : Char) : List Char := if needsEscape c then ['\\', c] else [c]

/-- The characters that stand for a text between double quotes. -/
def escapeChars (cs : List Char) : List Char := cs.flatMap escapeChar

/-- The double-quoted literal of a text. -/
def quote (text : String) : String :=
  String.ofList ('"' :: (escapeChars text.toList ++ ['"']))

/-- Puts the ASCII letters of a text in lower case. -/
def lowerChars (cs : List Char) : List Char := cs.map Char.toLower

/-- Reads a boolean by the spellings that PHP takes for one; the empty text is false. -/
def boolean? (text : String) : Option Bool :=
  let word := String.ofList (lowerChars (Text.trimChars text.toList))
  if word ∈ ["1", "true", "on", "yes"] then some true
  else if word ∈ ["0", "false", "off", "no", ""] then some false
  else none

/-- The literal of a boolean default; an unknown spelling gives `null`. -/
def boolLiteral (text : String) : String :=
  match boolean? text with
  | some true => "true"
  | some false => "false"
  | none => "null"

@[simp] theorem toList_quote (text : String) :
    (quote text).toList = '"' :: (escapeChars text.toList ++ ['"']) := by
  simp [quote]

@[simp] theorem escapeChars_nil : escapeChars [] = [] := rfl

theorem escapeChars_cons (c : Char) (cs : List Char) :
    escapeChars (c :: cs) = escapeChar c ++ escapeChars cs := by
  simp [escapeChars]

end ProtoPhp.Php
