/-
The lexical structure of generated code.

PHP code is read character by character.  Outside of comments and quoted literals
each character stands for itself; a literal is one lexeme, and of a comment no more
than a blank is left.  What may end the code, start another kind of literal or be
replaced inside a literal is not read at all: the rest of such a text is one
unfinished lexeme.

* `Php.lexemes` — the lexemes of a text;
* `Php.Lexes` — a piece of text that starts and ends outside of comments and
  literals; such pieces can be put together;
* `Php.lexes_plain`, `Php.lexes_lineComment`, `Php.lexes_blockComment`,
  `Php.lexes_quote`, `Php.lexes_className` — the pieces of generated code.
-/
import ProtoPhp.Php.Literal
import ProtoPhp.Proofs.MessageUnit

namespace ProtoPhp.Php

/-- What a text is made of for PHP. -/
inductive Lexeme where
  /-- A character outside of comments and literals. -/
  | code (c : Char)
  /-- A literal with its quotation mark and what stands between the two marks. -/
  | literal (mark : Char) (raw : List Char)
  /-- A comment, a literal or something unknown that does not end. -/
  | unfinished
  deriving Repr, DecidableEq

/-- Where a reading is. -/
inductive Mode where
  | code
  /-- Behind a slash that may start a comment. -/
  | slash
  | lineComment
  /-- In a comment that ends with a star and a slash; the last character was a star or not. -/
  | blockComment (star : Bool)
  /-- In a literal; the last character was a backslash that counts or not. -/
  | literal (mark : Char) (escaped : Bool) (raw : List Char)
  | unknown
  deriving Repr, DecidableEq

/-- A character in code, without what is known from the one before. -/
def Mode.start (c : Char) : List Lexeme × Mode :=
  if c = '/' then ([], .slash)
  else if c = '#' then ([], .lineComment)
  else if c = '"' ∨ c = '\'' then ([], .literal c false [])
  else if c = '?' ∨ c = '<' ∨ c = '`' then ([], .unknown)
  else ([.code c], .code)

/-- One character of a text. -/
def Mode.step : Mode → Char → List Lexeme × Mode
  | code, c => start c
  | slash, c =>
    if c = '/' then ([], .lineComment)
    else if c = '*' then ([], .blockComment false)
    else (.code '/' :: (start c).1, (start c).2)
  | lineComment, c =>
    if c = '\n' then ([.code c], .code) else if c = '?' then ([], .unknown) else ([], .lineComment)
  | blockComment star, c =>
    if star && c == '/' then ([.code ' '], .code) else ([], .blockComment (c == '*'))
  | literal mark escaped raw, c =>
    if escaped then ([], .literal mark false (raw ++ [c]))
    else if c = mark then ([.literal mark raw], .code)
    else if mark = '"' ∧ c = '$' then ([], .unknown)
    else ([], .literal mark (c == '\\') (raw ++ [c]))
  | unknown, _ => ([], .unknown)

/-- The lexemes of a text that is read from some mode on. -/
def lexFrom : Mode → List Char → List Lexeme
  | .code, [] => []
  | .slash, [] => [.code '/']
  | _, [] => [.unfinished]
  | mode, c :: cs => (mode.step c).1 ++ lexFrom (mode.step c).2 cs

/-- The lexemes of a text. -/
def lexemes (text : String) : List Lexeme := lexFrom .code text.toList

/-- A piece of text that starts and ends outside of comments and literals. -/
def Lexes (text : String) (xs : List Lexeme) : Prop :=
  ∀ rest, lexFrom .code (text.toList ++ rest) = xs ++ lexFrom .code rest

theorem lexFrom_cons (mode : Mode) (c : Char) (cs : List Char) :
    lexFrom mode (c :: cs) = (mode.step c).1 ++ lexFrom (mode.step c).2 cs := by
  cases mode <;> rfl

theorem lexes_empty : Lexes "" [] := fun _ => rfl

theorem Lexes.append {a b : String} {xs ys : List Lexeme} (ha : Lexes a xs) (hb : Lexes b ys) :
    Lexes (a ++ b) (xs ++ ys) := by
  intro rest
  rw [String.toList_append, List.append_assoc, ha, hb, List.append_assoc]

theorem Lexes.lexemes_eq {text : String} {xs : List Lexeme} (h : Lexes text xs) :
    lexemes text = xs := by
  have h := h []
  rw [List.append_nil] at h
  rw [lexemes, h]
  exact List.append_nil xs

/-- A character that stands for itself in code. -/
def isPlainChar (c : Char) : Bool := c ∉ ['/', '#', '"', '\'', '?', '<', '`']

theorem start_of_isPlainChar {c : Char} (h : isPlainChar c = true) :
    Mode.start c = ([.code c], .code) := by
  simp only [isPlainChar, List.mem_cons, List.not_mem_nil, or_false, decide_eq_true_eq, not_or] at h
  obtain ⟨h1, h2, h3, h4, h5, h6, h7⟩ := h
  simp [Mode.start, h1, h2, h3, h4, h5, h6, h7]

/-- A text without marks is its characters. -/
theorem lexes_plain {text : String} (h : ∀ c ∈ text.toList, isPlainChar c = true) :
    Lexes text (text.toList.map .code) := by
  intro rest
  generalize text.toList = cs at h
  induction cs with
  | nil => rfl
  | cons c cs ih =>
    rw [List.cons_append, lexFrom_cons, Mode.step, start_of_isPlainChar (h c List.mem_cons_self),
      ih fun x hx => h x (List.mem_cons_of_mem _ hx)]
    rfl

/-- A comment up to the end of its line. -/
theorem lexes_lineComment {text : String} (h : '\n' ∉ text.toList) (hend : '?' ∉ text.toList) :
    Lexes ("//" ++ text ++ "\n") [.code '\n'] := by
  have hin : ∀ cs rest : List Char, '\n' ∉ cs → '?' ∉ cs →
      lexFrom .lineComment (cs ++ '\n' :: rest) = .code '\n' :: lexFrom .code rest := by
    intro cs rest hcs hq
    induction cs with
    | nil => rfl
    | cons c cs ih =>
      rw [List.mem_cons, not_or] at hcs hq
      rw [List.cons_append, lexFrom_cons, Mode.step, if_neg (Ne.symm hcs.1), if_neg (Ne.symm hq.1)]
      exact ih hcs.2 hq.2
  intro rest
  have htext : ("//" ++ text ++ "\n").toList ++ rest = '/' :: '/' :: (text.toList ++ '\n' :: rest) := by
    simp
  rw [htext]
  exact hin text.toList rest h hend

/-- A comment without a slash in it ends with the first slash. -/
theorem lexes_blockComment {text : String} (h : '/' ∉ text.toList) :
    Lexes ("/*" ++ text ++ "*/") [.code ' '] := by
  have hin : ∀ cs rest : List Char, ∀ star, '/' ∉ cs →
      lexFrom (.blockComment star) (cs ++ '*' :: '/' :: rest) = .code ' ' :: lexFrom .code rest := by
    intro cs rest
    -- A star in the comment does no harm without a slash behind it.
    induction cs with
    | nil =>
      intro star _
      cases star <;> rfl
    | cons c cs ih =>
      intro star hcs
      rw [List.mem_cons, not_or] at hcs
      have hc : (c == '/') = false := beq_eq_false_iff_ne.mpr (Ne.symm hcs.1)
      rw [List.cons_append, lexFrom_cons, Mode.step, hc, Bool.and_false]
      exact ih _ hcs.2
  intro rest
  have htext : ("/*" ++ text ++ "*/").toList ++ rest =
      '/' :: '*' :: (text.toList ++ '*' :: '/' :: rest) := by simp
  rw [htext]
  exact hin text.toList rest false h

/-- What is escaped for a literal stays in the literal. -/
theorem lexFrom_escapeChars (cs raw rest : List Char) :
    lexFrom (.literal '"' false raw) (escapeChars cs ++ '"' :: rest) =
      .literal '"' (raw ++ escapeChars cs) :: lexFrom .code rest := by
  induction cs generalizing raw with
  | nil =>
    rw [escapeChars_nil, List.append_nil]
    rfl
  | cons c cs ih =>
    rw [escapeChars_cons, escapeChar]
    by_cases hc : needsEscape c = true
    · -- The backslash takes the character along, whichever it is.
      rw [if_pos hc]
      have hstep : lexFrom (.literal '"' false raw) (['\\', c] ++ escapeChars cs ++ '"' :: rest) =
          lexFrom (.literal '"' false (raw ++ ['\\'] ++ [c])) (escapeChars cs ++ '"' :: rest) := rfl
      rw [hstep, ih]
      simp
    · rw [if_neg hc]
      have hne : c ≠ '"' ∧ c ≠ '\\' ∧ c ≠ '$' := by
        refine ⟨?_, ?_, ?_⟩ <;> rintro rfl <;> exact hc rfl
      have hback : (c == '\\') = false := beq_eq_false_iff_ne.mpr hne.2.1
      rw [List.singleton_append, List.cons_append, lexFrom_cons, Mode.step, if_neg Bool.false_ne_true,
        if_neg hne.1, if_neg fun h => hne.2.2 h.2, hback]
      show lexFrom (.literal '"' false (raw ++ [c])) _ = _
      rw [ih]
      simp

/-- The literal of a text is one lexeme, whatever the text says. -/
theorem lexes_quote (text : String) :
    Lexes (quote text) [.literal '"' (escapeChars text.toList)] := by
  intro rest
  rw [toList_quote, List.cons_append, List.append_assoc]
  exact lexFrom_escapeChars text.toList [] rest

/-- Between single quotes a backslash takes the next character along, and so the last character of a
literal must not be one. -/
theorem lexFrom_single (cs raw rest : List Char) {last : Char} (h : '\'' ∉ cs)
    (hmark : last ≠ '\'') (hback : last ≠ '\\') (escaped : Bool) :
    lexFrom (.literal '\'' escaped raw) (cs ++ last :: '\'' :: rest) =
      .literal '\'' (raw ++ cs ++ [last]) :: lexFrom .code rest := by
  have hquote : ¬('\'' = '"' ∧ last = '$') := fun e => absurd e.1 (by decide)
  -- Each character decides how the next one counts, so the statement is for both ways to count it.
  induction cs generalizing raw escaped with
  | nil =>
    have hlast : (last == '\\') = false := beq_eq_false_iff_ne.mpr hback
    rw [List.nil_append, List.append_nil, lexFrom_cons, Mode.step]
    cases escaped with
    | true => rfl
    | false =>
      rw [if_neg Bool.false_ne_true, if_neg hmark, if_neg hquote, hlast]
      rfl
  | cons c cs ih =>
    rw [List.mem_cons, not_or] at h
    have hdollar : ¬('\'' = '"' ∧ c = '$') := fun e => absurd e.1 (by decide)
    have hih : ∀ escaped, lexFrom (.literal '\'' escaped (raw ++ [c])) (cs ++ last :: '\'' :: rest) =
        .literal '\'' (raw ++ c :: cs ++ [last]) :: lexFrom .code rest := by
      intro escaped
      rw [ih (raw ++ [c]) h.2 escaped]
      simp
    rw [List.cons_append, lexFrom_cons, Mode.step]
    cases escaped with
    | true => exact hih false
    | false =>
      rw [if_neg Bool.false_ne_true, if_neg (Ne.symm h.1), if_neg hdollar]
      exact hih _

/-- The quoted name of a class is one lexeme if the class has a name. -/
theorem lexes_className {ns : Namespace} (h : ns.HasWords) (hne : ns ≠ .root) :
    Lexes ("'" ++ absolute ns ++ "'") [.literal '\'' (absolute ns).toList] := by
  have hnil : ns.segments ≠ [] := fun e => hne (congrArg Namespace.mk e)
  obtain ⟨before, name, hsegments⟩ : ∃ before name, ns.segments = before ++ [name] :=
    ⟨_, _, (List.dropLast_append_getLast hnil).symm⟩
  have hname := h name (by simp [hsegments])
  -- The path ends like its last name, and so in a character of a word.
  obtain ⟨last, hlast?, hlast⟩ := hname.getLast?
  obtain ⟨front, hpath⟩ : ∃ front, (absolute ns).toList = front ++ [last] := by
    have hend : (toString ns).toList.getLast? = name.toList.getLast? := by
      show ("\\".intercalate ns.segments).toList.getLast? = _
      rw [hsegments, Text.getLast?_intercalate _ _ hname.1]
    rw [hlast?] at hend
    obtain ⟨cs, hcs⟩ := List.getLast?_eq_some_iff.mp hend
    exact ⟨'\\' :: cs, by simp [absolute, hcs]⟩
  have hmark : '\'' ∉ front := by
    have hinert := h.isInert_absolute.not_mem (c := '\'') rfl
    rw [hpath, List.mem_append, not_or] at hinert
    exact hinert.1
  intro rest
  have htext : ("'" ++ absolute ns ++ "'").toList ++ rest =
      '\'' :: (front ++ last :: '\'' :: rest) := by simp [hpath]
  rw [htext, hpath, lexFrom_cons]
  refine lexFrom_single front [] rest hmark ?_ ?_ false
  · rintro rfl
    cases hlast
  · rintro rfl
    cases hlast

end ProtoPhp.Php
