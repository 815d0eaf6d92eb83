/-
What a literal between double quotes denotes.

A literal of PHP denotes a string of bytes.  Most characters stand for their bytes in
UTF-8.  A backslash starts an escape, which stands for one byte or for a code point; a
backslash that starts none stands for itself and keeps the next character from meaning
anything.  A dollar sign before a name or a brace, and a brace before a dollar sign, put
the value of a variable in.

* `Php.readLiteral` — the bytes that a literal denotes and how its reading ends;
* `Php.readLiteral_quote` — the literal of a text is read to its end, whatever stands
  behind it, and denotes the text.
-/
import ProtoPhp.Php.Literal
import ProtoPhp.Wire.Utf8

namespace ProtoPhp.Php

/-- How the reading of a literal ends. -/
inductive LiteralEnd where
  /-- At the closing quote, in front of the rest of the text. -/
  | closed (rest : List Char)
  /-- Where a variable is put in. -/
  | variable (rest : List Char)
  /-- At an escape of something that is no code point. -/
  | refused
  /-- Without a quote that closes the literal. -/
  | missing
  deriving Repr, DecidableEq

/-- The bytes of a literal up to the end of its reading. -/
structure LiteralReading where
  bytes : List UInt8
  ending : LiteralEnd
  deriving Repr, DecidableEq

/-- Puts bytes in front. -/
def LiteralReading.prepend (bytes : List UInt8) (r : LiteralReading) : LiteralReading :=
  ⟨bytes ++ r.bytes, r.ending⟩

/-- Starts the name of a variable.  Every character outside of ASCII does. -/
def isNameStart (c : Char) : Bool := c.isAlpha || c == '_' || 0x80 ≤ c.toNat

/-- A variable starts at a character, in front of the others. -/
def startsVariable (c : Char) (cs : List Char) : Bool :=
  (c == '$' && cs.head?.any fun d => isNameStart d || d == '\x7b') ||
    (c == '\x7b' && cs.head? == some '$')

def isOctalDigit (c : Char) : Bool := '0' ≤ c && c ≤ '7'

def isHexDigit (c : Char) : Bool :=
  c.isDigit || ('a' ≤ c && c ≤ 'f') || ('A' ≤ c && c ≤ 'F')

/-- The value of a digit in any base up to sixteen. -/
def digitValue (c : Char) : Nat :=
  if c.isDigit then c.toNat - '0'.toNat else c.toLower.toNat - 'a'.toNat + 10

/-- The number that digits in some base stand for. -/
def numberOf (base : Nat) (digits : List Char) : Nat :=
  digits.foldl (fun n c => base * n + digitValue c) 0

/-- The bytes of a code point.  Surrogates have bytes too. -/
def codePointBytes (n : Nat) : List UInt8 :=
  if n < 0x80 then [.ofNat n]
  else if n < 0x800 then [.ofNat (0xC0 + n / 0x40), .ofNat (0x80 + n % 0x40)]
  else if n < 0x10000 then
    [.ofNat (0xE0 + n / 0x1000), .ofNat (0x80 + n / 0x40 % 0x40), .ofNat (0x80 + n % 0x40)]
  else
    [.ofNat (0xF0 + n / 0x40000), .ofNat (0x80 + n / 0x1000 % 0x40),
      .ofNat (0x80 + n / 0x40 % 0x40), .ofNat (0x80 + n % 0x40)]

/-- The byte that a single character stands for behind a backslash. -/
def shortEscape? : Char → Option UInt8
  | 'n' => some 0x0A
  | 't' => some 0x09
  | 'r' => some 0x0D
  | 'v' => some 0x0B
  | 'e' => some 0x1B
  | 'f' => some 0x0C
  | '\\' => some 0x5C
  | '$' => some 0x24
  | '"' => some 0x22
  | _ => none

/-- The escape of a code point, behind its opening brace: the bytes, and the number of characters up
to the closing brace. -/
def codePoint? (cs : List Char) : Option (List UInt8 × Nat) :=
  let digits := cs.takeWhile isHexDigit
  if digits ≠ [] ∧ cs[digits.length]? = some '\x7d' ∧ numberOf 16 digits ≤ 0x10FFFF then
    some (codePointBytes (numberOf 16 digits), digits.length + 1)
  else none

/-- What a backslash stands for together with the text behind it: the bytes, and how many characters
of the text belong to it. -/
def escape? : List Char → Option (List UInt8 × Nat)
  | [] => some ([0x5C], 0)
  | c :: cs =>
    let octal := ((c :: cs).takeWhile isOctalDigit).take 3
    let hex := (cs.takeWhile isHexDigit).take 2
    match shortEscape? c with
    | some byte => some ([byte], 1)
    | none =>
      if c = 'u' ∧ cs.head? = some '\x7b' then (codePoint? cs.tail).map fun r => (r.1, r.2 + 2)
      else if (c = 'x' ∨ c = 'X') ∧ hex ≠ [] then some ([.ofNat (numberOf 16 hex)], hex.length + 1)
      else if octal ≠ [] then some ([.ofNat (numberOf 8 octal)], octal.length)
      else some (0x5C :: String.utf8EncodeChar c, 1)

/-- Reads behind the opening quote, some characters being read already. -/
def readBody : Nat → List Char → LiteralReading
  | _, [] => ⟨[], .missing⟩
  | skipped + 1, _ :: cs => readBody skipped cs
  | 0, c :: cs =>
    if c = '"' then ⟨[], .closed cs⟩
    else if c = '\\' then
      match escape? cs with
      | some (bytes, n) => (readBody n cs).prepend bytes
      | none => ⟨[], .refused⟩
    else if startsVariable c cs then ⟨[], .variable (c :: cs)⟩
    else (readBody 0 cs).prepend (String.utf8EncodeChar c)

/-- Reads the literal at the front of a text. -/
def readLiteral : List Char → LiteralReading
  | '"' :: cs => readBody 0 cs
  | _ => ⟨[], .missing⟩

/-- Escapes of one byte, of a code point and of nothing, and a variable behind them. -/
example : readLiteral "\"\\x41\\101\\u\x7be9\x7d\\q$ $x\"".toList =
    ⟨[0x41, 0x41, 0xC3, 0xA9, 0x5C, 0x71, 0x24, 0x20], .variable ['$', 'x', '"']⟩ := by
  decide +kernel

theorem encodeText_ofList (cs : List Char) :
    Wire.encodeText (String.ofList cs) = cs.flatMap String.utf8EncodeChar := by
  simp [Wire.encodeText, List.utf8Encode]

/-- A character that needs an escape is escaped by itself. -/
theorem shortEscape?_of_needsEscape {c : Char} (h : needsEscape c = true) :
    ∃ byte, shortEscape? c = some byte ∧ String.utf8EncodeChar c = [byte] := by
  rw [needsEscape, Bool.or_eq_true, Bool.or_eq_true, beq_iff_eq, beq_iff_eq, beq_iff_eq] at h
  rcases h with (rfl | rfl) | rfl
  · exact ⟨0x22, rfl, by decide⟩
  · exact ⟨0x5C, rfl, by decide⟩
  · exact ⟨0x24, rfl, by decide⟩

/-- What is escaped for a literal never starts with a dollar sign. -/
theorem head?_escapeChars_append (cs rest : List Char) :
    (escapeChars cs ++ '"' :: rest).head? ≠ some '$' := by
  cases cs with
  | nil => simp
  | cons c cs =>
    rw [escapeChars_cons, escapeChar]
    by_cases h : needsEscape c = true
    · simp [h]
    · have hne : c ≠ '$' := by
        rintro rfl
        exact h rfl
      simp [h, hne]

/-- What is escaped for a literal is read to the closing quote and denotes what is escaped. -/
theorem readBody_escapeChars (cs rest : List Char) :
    readBody 0 (escapeChars cs ++ '"' :: rest) =
      ⟨cs.flatMap String.utf8EncodeChar, .closed rest⟩ := by
  induction cs with
  | nil => rfl
  | cons c cs ih =>
    rw [escapeChars_cons, escapeChar, List.flatMap_cons, List.append_assoc]
    by_cases h : needsEscape c = true
    · -- The backslash takes the character along, and so it is not read once more.
      obtain ⟨byte, hbyte, hbytes⟩ := shortEscape?_of_needsEscape h
      have hescape : escape? (c :: (escapeChars cs ++ '"' :: rest)) = some ([byte], 1) := by
        rw [escape?, hbyte]
      rw [if_pos h, hbytes]
      show (match escape? (c :: (escapeChars cs ++ '"' :: rest)) with
        | some (bytes, n) => (readBody n (c :: (escapeChars cs ++ '"' :: rest))).prepend bytes
        | none => ⟨[], .refused⟩) = _
      rw [hescape]
      show (readBody 0 (escapeChars cs ++ '"' :: rest)).prepend [byte] = _
      rw [ih]
      rfl
    · have hne : c ≠ '"' ∧ c ≠ '\\' ∧ c ≠ '$' := by
        refine ⟨?_, ?_, ?_⟩ <;> rintro rfl <;> exact h rfl
      -- The next character is no dollar sign, and so not even a brace starts a variable here.
      have hvariable : startsVariable c (escapeChars cs ++ '"' :: rest) = false := by
        have hdollar : (c == '$') = false := beq_eq_false_iff_ne.mpr hne.2.2
        have hnext := beq_eq_false_iff_ne.mpr (head?_escapeChars_append cs rest)
        rw [startsVariable, hdollar, hnext, Bool.false_and, Bool.and_false, Bool.or_self]
      rw [if_neg h, List.singleton_append, readBody, if_neg hne.1, if_neg hne.2.1, hvariable, ih]
      rfl

/-- The literal of a text is read to its end and not further, no variable is put in, and it denotes
the text. -/
theorem readLiteral_quote (text : String) (rest : List Char) :
    readLiteral ((quote text).toList ++ rest) = ⟨Wire.encodeText text, .closed rest⟩ := by
  have hbytes := encodeText_ofList text.toList
  rw [String.ofList_toList] at hbytes
  rw [toList_quote, List.cons_append, List.append_assoc, hbytes]
  exact readBody_escapeChars text.toList rest

end ProtoPhp.Php
