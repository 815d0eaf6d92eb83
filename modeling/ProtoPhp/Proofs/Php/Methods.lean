/-
The methods of a generated class.

A clause that ends in a brace and says `function` behind its modifiers starts a
method, whose body goes up to the brace that closes it.  Clauses between methods,
and blocks inside of a body, do not matter as long as they start no method and
their braces match.

* `Php.methods` — the methods of a source;
* `Php.Clause.calls` — the calls on `$this` in a clause;
* `Php.IsQuiet` — clauses that hold no method and no such call, with matching braces;
* `Php.methodsFrom_quiet`, `Php.methodsFrom_method` — what is read from them, and
  from a method.
-/
import ProtoPhp.Proofs.Php.Clauses

namespace ProtoPhp.Php

open Text

/-- What stands in front of a call on the object at hand. -/
def callMark : List Char := "$this->".toList

/-- What follows each call on the object at hand. -/
def callsIn : List Char → List (List Char)
  | [] => []
  | c :: cs =>
    if callMark.isPrefixOf (c :: cs) then (c :: cs).drop callMark.length :: callsIn cs
    else callsIn cs

/-- The calls on the object at hand, each up to the end of the clause. -/
def Clause.calls (c : Clause) : List String := (callsIn c.text.toList).map String.ofList

/-- How a method is declared. -/
structure MethodHeader where
  modifiers : List String
  name : String
  /-- What stands between the parentheses. -/
  parameters : String
  deriving Repr, DecidableEq

/-- A method with the clauses of its body. -/
structure MethodReading extends MethodHeader where
  body : List Clause
  deriving Repr, DecidableEq

def isModifier (word : List Char) : Bool :=
  String.ofList word ∈ ["public", "protected", "private", "static", "abstract", "final"]

/-- The header of a method with a name and parameters between parentheses. -/
def MethodHeader.ofSignature (modifiers : List String) (signature : List Char) : MethodHeader where
  modifiers := modifiers
  name := String.ofList (signature.takeWhile (· != '('))
  parameters := String.ofList (signature.dropWhile (· != '(')).tail.dropLast

/-- The method that some words declare. -/
def headerOf (words : List (List Char)) : Option MethodHeader :=
  match words.dropWhile isModifier with
  | [] => none
  | word :: rest =>
    if word = "function".toList then
      some (.ofSignature ((words.takeWhile isModifier).map String.ofList) ([' '].intercalate rest))
    else none

/-- The method that a clause starts. -/
def Clause.header? (c : Clause) : Option MethodHeader :=
  if c.stop = some '\x7b' then headerOf (c.text.toList.splitOn ' ') else none

/-- The methods in a list of clauses; inside a method, with its header, the number of braces open in
its body and the clauses of the body so far. -/
def methodsFrom : Option (MethodHeader × Nat × List Clause) → List Clause → List MethodReading
  | _, [] => []
  | none, c :: cs =>
    match c.header? with
    | some h => methodsFrom (some (h, 0, [])) cs
    | none => methodsFrom none cs
  | some (h, depth, body), c :: cs =>
    if c.stop = some '\x7b' then methodsFrom (some (h, depth + 1, body ++ [c])) cs
    else if c.stop = some '\x7d' then
      if depth = 0 then
        ⟨h, if c.text.isEmpty then body else body ++ [⟨c.text, none⟩]⟩ :: methodsFrom none cs
      else methodsFrom (some (h, depth - 1, body ++ [c])) cs
    else methodsFrom (some (h, depth, body ++ [c])) cs

/-- The methods of a source. -/
def methods (source : String) : List MethodReading := methodsFrom none (clauses source)

/-- Clauses whose braces match. -/
def Nested (parts : List Clause) : Prop :=
  ∀ h depth body rest, methodsFrom (some (h, depth, body)) (parts ++ rest) =
    methodsFrom (some (h, depth, body ++ parts)) rest

/-- Clauses without methods and without calls, whose braces match. -/
structure IsQuiet (parts : List Clause) : Prop where
  headers : ∀ c ∈ parts, c.header? = none
  calls : ∀ c ∈ parts, c.calls = []
  nested : Nested parts

section Calls

theorem callsIn_eq_nil {cs : List Char} (h : ¬callMark <:+: cs) : callsIn cs = [] := by
  induction cs with
  | nil => rfl
  | cons c cs ih =>
    rw [List.infix_cons_iff, not_or, ← List.isPrefixOf_iff_prefix] at h
    rw [callsIn, if_neg h.1]
    exact ih h.2

theorem callMark_infix {cs : List Char} (h : callsIn cs = []) : ¬callMark <:+: cs := by
  induction cs with
  | nil => decide
  | cons c cs ih =>
    rw [callsIn] at h
    split at h
    · cases h
    · rename_i hmark
      rw [List.infix_cons_iff, not_or, ← List.isPrefixOf_iff_prefix]
      exact ⟨hmark, ih h⟩

theorem callsIn_of_no_arrow {cs : List Char} (h : '>' ∉ cs) : callsIn cs = [] :=
  callsIn_eq_nil fun e => h (e.subset (by decide))

theorem calls_trim {cs : List Char} (h : callsIn cs = []) (stop : Option Char) :
    (⟨String.ofList (trim cs), stop⟩ : Clause).calls = [] := by
  have htrim : callsIn (trim cs) = [] :=
    callsIn_eq_nil fun e => callMark_infix h (e.trans (infix_trim cs))
  rw [Clause.calls, String.toList_ofList, htrim]
  rfl

/-- The mark of a call ends where its arrow ends. -/
theorem isPrefixOf_callMark_append (cs : List Char) {ds : List Char} (h : '>' ∉ ds) :
    callMark.isPrefixOf (cs ++ ds) = callMark.isPrefixOf cs := by
  rw [Bool.eq_iff_iff, List.isPrefixOf_iff_prefix, List.isPrefixOf_iff_prefix]
  refine ⟨fun hmark => ?_, fun hmark => hmark.trans (List.prefix_append _ _)⟩
  rcases List.prefix_or_prefix_of_prefix hmark (List.prefix_append cs ds) with hin | ⟨rest, hrest⟩
  · exact hin
  · -- Otherwise its last character would stand behind.
    have hds : rest <+: ds := by
      rw [← hrest] at hmark
      exact (List.prefix_append_right_inj cs).mp hmark
    have hlast : callMark.getLast? = some '>' := by decide
    cases rest with
    | nil =>
      rw [List.append_nil] at hrest
      exact hrest ▸ List.prefix_refl _
    | cons d rest =>
      rw [← hrest, List.getLast?_append_of_ne_nil _ (List.cons_ne_nil _ _)] at hlast
      exact absurd (hds.subset (List.mem_of_getLast? hlast)) h

/-- What has no arrow goes to the end of each call. -/
theorem callsIn_append (cs : List Char) {ds : List Char} (h : '>' ∉ ds) :
    callsIn (cs ++ ds) = (callsIn cs).map (· ++ ds) := by
  induction cs with
  | nil => exact callsIn_of_no_arrow h
  | cons c cs ih =>
    -- Both sides start a call here or none does.
    have hmark := isPrefixOf_callMark_append (c :: cs) h
    rw [List.cons_append] at hmark ⊢
    rw [callsIn, callsIn, hmark, ih]
    split
    · rename_i hstart
      have hlen : callMark.length ≤ (c :: cs).length :=
        (List.isPrefixOf_iff_prefix.mp hstart).length_le
      rw [List.map_cons, ← List.cons_append, List.drop_append_of_le_length hlen]
    · rfl

end Calls

section Headers

theorem header?_of_stop {c : Clause} (h : c.stop ≠ some '\x7b') : c.header? = none := by
  rw [Clause.header?, if_neg h]

theorem splitOn_word_append {word : String} (h : ' ' ∉ word.toList) (tail : List Char) :
    (word.toList ++ ' ' :: tail).splitOn ' ' = word.toList :: tail.splitOn ' ' := by
  rw [List.splitOn_append_cons_self, List.splitOn_eq_singleton h]
  rfl

/-- A clause with another first word starts no method. -/
theorem header?_of_first {word : String} (hword : IsWord word)
    (hother : isModifier word.toList = false ∧ word ≠ "function") (tail : List Char) {c : Clause}
    (htext : c.text.toList = word.toList ++ ' ' :: tail) : c.header? = none := by
  have hne : word.toList ≠ "function".toList := fun e => hother.2 (String.ext e)
  rw [Clause.header?, htext, splitOn_word_append (hword.not_mem rfl)]
  split
  · rw [headerOf, List.dropWhile_cons_of_neg (by simp [hother.1])]
    exact if_neg hne
  · rfl

theorem header?_trim {word : String} (hword : IsWord word)
    (hother : isModifier word.toList = false ∧ word ≠ "function") {c : Char}
    (hc : c.isWhitespace = false) (rest : List Char) :
    (⟨String.ofList (trim (word.toList ++ ' ' :: c :: rest)), some '\x7b'⟩ : Clause).header? =
      none := by
  obtain ⟨first, hfirst, hchar⟩ := hword.head?
  have hfront : (word.toList ++ [' ']).head? = some first := by
    rw [List.head?_append, hfirst]
    rfl
  -- Nothing is trimmed up to the character behind the blank.
  have hkept : (word.toList ++ [' ']) ++ [c] <+: trim ((word.toList ++ [' ']) ++ c :: rest) :=
    prefix_trim hfront (isWhitespace_of_isWordChar hchar) hc
  obtain ⟨tail, htail⟩ := hkept
  have htext : word.toList ++ ' ' :: c :: rest = (word.toList ++ [' ']) ++ c :: rest := by simp
  refine header?_of_first hword hother (c :: tail) ?_
  rw [String.toList_ofList, htext, ← htail]
  simp

theorem no_blank_of_isModifier {word : String} (h : isModifier word.toList = true) :
    ' ' ∉ word.toList := by
  rw [isModifier, String.ofList_toList, decide_eq_true_eq] at h
  revert word
  decide

theorem splitOn_declaration {modifiers : List String}
    (h : ∀ w ∈ modifiers, isModifier w.toList = true) (signature : List Char) :
    (modifiers.flatMap (fun w => w.toList ++ [' ']) ++ ("function ".toList ++ signature)).splitOn ' ' =
      modifiers.map String.toList ++ "function".toList :: signature.splitOn ' ' := by
  induction modifiers with
  | nil =>
    have hfunction : ' ' ∉ "function".toList := by decide
    exact splitOn_word_append hfunction signature
  | cons w ws ih =>
    -- A modifier has no blank in it, and so it is the first word.
    have hw := no_blank_of_isModifier (h w List.mem_cons_self)
    rw [List.flatMap_cons, List.append_assoc, List.append_assoc, List.singleton_append,
      splitOn_word_append hw, ih fun x hx => h x (List.mem_cons_of_mem _ hx)]
    rfl

theorem ofSignature_eq (modifiers : List String) {name : String} (hname : '(' ∉ name.toList)
    (parameters : String) :
    MethodHeader.ofSignature modifiers (name.toList ++ '(' :: (parameters.toList ++ [')'])) =
      ⟨modifiers, name, parameters⟩ := by
  have hchars : ∀ x ∈ name.toList, (x != '(') = true := by
    intro x hx
    rw [bne_iff_ne]
    rintro rfl
    exact hname hx
  rw [MethodHeader.ofSignature, List.takeWhile_append_of_pos hchars,
    List.dropWhile_append_of_pos hchars]
  simp

theorem header?_of_method (modifiers : List String) {name parameters : String} {c : Clause}
    (hmodifiers : ∀ w ∈ modifiers, isModifier w.toList = true) (hname : '(' ∉ name.toList)
    (htext : c.text.toList = modifiers.flatMap (fun w => w.toList ++ [' ']) ++
      ("function ".toList ++ (name.toList ++ '(' :: (parameters.toList ++ [')']))))
    (hstop : c.stop = some '\x7b') : c.header? = some ⟨modifiers, name, parameters⟩ := by
  have hall : ∀ w ∈ modifiers.map String.toList, isModifier w = true := by
    simpa using hmodifiers
  have hback : (modifiers.map String.toList).map String.ofList = modifiers := by simp
  rw [Clause.header?, if_pos hstop, htext, splitOn_declaration hmodifiers, headerOf,
    List.dropWhile_append_of_pos hall, List.dropWhile_cons_of_neg (by decide),
    List.takeWhile_append_of_pos hall, List.takeWhile_cons_of_neg (by decide), List.append_nil, hback]
  show (if _ then _ else _) = _
  rw [if_pos rfl, List.intercalate_splitOn, ofSignature_eq modifiers hname]

end Headers

section Quiet

variable {a b : List Clause}

theorem Nested.append (ha : Nested a) (hb : Nested b) : Nested (a ++ b) := by
  intro h depth body rest
  rw [List.append_assoc, ha, hb, List.append_assoc]

theorem nested_of_stop {c : Clause} (h : c.stop ≠ some '\x7b') (h' : c.stop ≠ some '\x7d') :
    Nested [c] := by
  intro header depth body rest
  rw [List.singleton_append, methodsFrom, if_neg h, if_neg h']

/-- A brace that opens and the one that closes it. -/
theorem Nested.block (h : Nested a) (opening closing : String) :
    Nested (⟨opening, some '\x7b'⟩ :: a ++ [⟨closing, some '\x7d'⟩]) := by
  intro header depth body rest
  have hall : (⟨opening, some '\x7b'⟩ :: a ++ [⟨closing, some '\x7d'⟩]) ++ rest =
      ⟨opening, some '\x7b'⟩ :: (a ++ ⟨closing, some '\x7d'⟩ :: rest) := by simp
  rw [hall, methodsFrom, if_pos rfl, h, methodsFrom, if_neg (by simp), if_pos rfl,
    if_neg (Nat.succ_ne_zero depth), Nat.add_sub_cancel]
  simp

theorem isQuiet_nil : IsQuiet [] := ⟨nofun, nofun, fun _ _ _ _ => by simp⟩

theorem IsQuiet.append (ha : IsQuiet a) (hb : IsQuiet b) : IsQuiet (a ++ b) where
  headers c hc := (List.mem_append.mp hc).elim (ha.headers c) (hb.headers c)
  calls c hc := (List.mem_append.mp hc).elim (ha.calls c) (hb.calls c)
  nested := ha.nested.append hb.nested

theorem methodsFrom_quiet (h : ∀ c ∈ a, c.header? = none) (rest : List Clause) :
    methodsFrom none (a ++ rest) = methodsFrom none rest := by
  induction a with
  | nil => rfl
  | cons c cs ih =>
    rw [List.cons_append, methodsFrom, h c List.mem_cons_self]
    exact ih fun x hx => h x (List.mem_cons_of_mem _ hx)

/-- A method is read with its body. -/
theorem methodsFrom_method {opening : Clause} {header : MethodHeader}
    (h : opening.header? = some header) (ha : Nested a) (rest : List Clause) :
    methodsFrom none (opening :: a ++ [⟨"", some '\x7d'⟩] ++ rest) =
      ⟨header, a⟩ :: methodsFrom none rest := by
  rw [List.cons_append, List.cons_append, methodsFrom, h]
  show methodsFrom (some (header, 0, [])) (a ++ [_] ++ rest) = _
  rw [List.append_assoc, ha, List.nil_append, List.singleton_append, methodsFrom,
    if_neg (by simp), if_pos rfl, if_pos rfl]
  rfl

/-- A method with a block and a literal in its body, behind one in a comment. -/
example : methods ("class A \x7b\n  /* function b()\x7b\x7d */\n  private static function c($x)\x7b\n" ++
      "    if ($x) \x7b return \"\x7d\"; \x7d\n    $this->_d(1);\n  \x7d\n\x7d\n") =
    [⟨⟨["private", "static"], "c", "$x"⟩,
      [⟨"if ($x)", some '\x7b'⟩, ⟨"return", some ';'⟩, ⟨"", some '\x7d'⟩,
        ⟨"$this->_d(1)", some ';'⟩]⟩] := by
  decide +kernel

end Quiet

end ProtoPhp.Php
