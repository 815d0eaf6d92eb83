/-
The clauses of generated code.

What is left of code without comments and literals is cut at its semicolons and
braces.  A clause is what stands before such a stop, without the blanks around it;
so the clauses of a piece of code do not depend on how deep the piece stands, and
the clauses of two pieces follow each other.

* `Php.clauses` — the clauses of a source;
* `Php.Shows` — the clauses of a piece of code at any depth;
* `Php.shows_clause`, `Php.Shows.append`, `Php.Shows.block` — how they are put together.
-/
import ProtoPhp.Proofs.Php.Lexer
import ProtoPhp.Proofs.Php.Written

namespace ProtoPhp.Php

/-- A piece of code up to a semicolon or a brace, or up to the end of the source. -/
structure Clause where
  text : String
  stop : Option Char
  deriving Repr, DecidableEq

/-- What is seen of a lexeme when literals are skipped. -/
def Lexeme.visible : Lexeme → List Char
  | code c => [c]
  | literal _ _ => [' ']
  | unfinished => []

def isStop (c : Char) : Bool := c ∈ [';', '\x7b', '\x7d']

def trimEnd (cs : List Char) : List Char := (cs.reverse.dropWhile Char.isWhitespace).reverse

def trim (cs : List Char) : List Char := trimEnd (cs.dropWhile Char.isWhitespace)

/-- The clauses of visible code, of which some is pending.  Blanks in front are not kept. -/
def clausesFrom (pending : List Char) : List Char → List Clause
  | [] => if pending.isEmpty then [] else [⟨String.ofList (trimEnd pending), none⟩]
  | c :: cs =>
    if isStop c then ⟨String.ofList (trimEnd pending), some c⟩ :: clausesFrom [] cs
    else if pending.isEmpty && c.isWhitespace then clausesFrom [] cs
    else clausesFrom (pending ++ [c]) cs

/-- The clauses of a source, its literals and comments skipped. -/
def clauses (source : String) : List Clause :=
  clausesFrom [] ((lexemes source).flatMap Lexeme.visible)

/-- A text of which only some characters are seen. -/
def LooksLike (text : String) (cs : List Char) : Prop :=
  ∃ xs, Lexes text xs ∧ xs.flatMap Lexeme.visible = cs

/-- Visible code that is cut into whole clauses. -/
def Cuts (cs : List Char) (parts : List Clause) : Prop :=
  ∀ rest, clausesFrom [] (cs ++ rest) = parts ++ clausesFrom [] rest

/-- The clauses of a piece of code, however deep it stands. -/
def Shows (code : Code) (parts : List Clause) : Prop :=
  ∀ n, ∃ cs, LooksLike (render (deepen n code)) cs ∧ Cuts cs parts

section LooksLike

variable {a b : String} {cs ds : List Char}

theorem looksLike_empty : LooksLike "" [] := ⟨[], lexes_empty, rfl⟩

theorem LooksLike.append (ha : LooksLike a cs) (hb : LooksLike b ds) :
    LooksLike (a ++ b) (cs ++ ds) := by
  obtain ⟨xs, hxs, rfl⟩ := ha
  obtain ⟨ys, hys, rfl⟩ := hb
  exact ⟨xs ++ ys, hxs.append hys, List.flatMap_append⟩

theorem looksLike_plain (h : ∀ c ∈ a.toList, isPlainChar c = true) : LooksLike a a.toList := by
  refine ⟨_, lexes_plain h, ?_⟩
  rw [List.flatMap_map]
  exact List.flatMap_singleton' _

theorem looksLike_quote (text : String) : LooksLike (quote text) [' '] := ⟨_, lexes_quote text, rfl⟩

theorem looksLike_className {ns : Namespace} (h : ns.HasWords) (hne : ns ≠ .root) :
    LooksLike ("'" ++ absolute ns ++ "'") [' '] := ⟨_, lexes_className h hne, rfl⟩

end LooksLike

section Cuts

variable {cs ds : List Char} {parts parts' : List Clause}

theorem cuts_nil : Cuts [] [] := fun _ => rfl

theorem Cuts.append (h : Cuts cs parts) (h' : Cuts ds parts') : Cuts (cs ++ ds) (parts ++ parts') := by
  intro rest
  rw [List.append_assoc, h, h', List.append_assoc]

theorem isStop_of_isWhitespace {c : Char} (h : c.isWhitespace = true) : isStop c = false := by
  rw [isStop, decide_eq_false_iff_not]
  intro hmem
  rcases List.mem_cons.mp hmem with rfl | hmem
  · cases h
  · rcases List.mem_cons.mp hmem with rfl | hmem
    · cases h
    · obtain rfl := List.mem_singleton.mp hmem
      cases h

/-- Blanks between clauses do not count. -/
theorem cuts_blanks (h : ∀ c ∈ cs, c.isWhitespace = true) : Cuts cs [] := by
  intro rest
  induction cs with
  | nil => rfl
  | cons c cs ih =>
    have hc := h c List.mem_cons_self
    rw [List.cons_append, clausesFrom, isStop_of_isWhitespace hc, hc]
    exact ih fun x hx => h x (List.mem_cons_of_mem _ hx)

theorem clausesFrom_stop {pending : List Char} (hpending : pending ≠ [])
    (h : ∀ c ∈ cs, isStop c = false) {stop : Char} (hstop : isStop stop = true) (rest : List Char) :
    clausesFrom pending (cs ++ stop :: rest) =
      ⟨String.ofList (trimEnd (pending ++ cs)), some stop⟩ :: clausesFrom [] rest := by
  induction cs generalizing pending with
  | nil => rw [List.nil_append, clausesFrom, if_pos hstop, List.append_nil]
  | cons c cs ih =>
    have hempty : pending.isEmpty = false := by simpa using hpending
    rw [List.cons_append, clausesFrom, h c List.mem_cons_self, hempty]
    show clausesFrom (pending ++ [c]) (cs ++ stop :: rest) = _
    rw [ih (by simp) fun x hx => h x (List.mem_cons_of_mem _ hx)]
    simp

/-- A stop makes a clause of what stands before it. -/
theorem cuts_clause (h : ∀ c ∈ cs, isStop c = false) {stop : Char} (hstop : isStop stop = true) :
    Cuts (cs ++ [stop]) [⟨String.ofList (trim cs), some stop⟩] := by
  intro rest
  rw [List.append_assoc, List.singleton_append]
  induction cs with
  | nil =>
    rw [List.nil_append, clausesFrom, if_pos hstop]
    rfl
  | cons c cs ih =>
    have htail := fun x hx => h x (List.mem_cons_of_mem _ hx)
    rw [List.cons_append, clausesFrom, h c List.mem_cons_self]
    -- Blanks in front are dropped one by one; the first other character starts the clause.
    by_cases hc : c.isWhitespace = true
    · have htrim : trim (c :: cs) = trim cs := by rw [trim, List.dropWhile_cons_of_pos hc, trim]
      rw [hc, htrim]
      exact ih htail
    · have htrim : trim (c :: cs) = trimEnd ([c] ++ cs) := by
        rw [trim, List.dropWhile_cons_of_neg hc]
        rfl
      rw [Bool.eq_false_iff.mpr hc, htrim]
      exact clausesFrom_stop (List.cons_ne_nil _ _) htail hstop rest

/-- Blanks behind what neither starts nor ends with a blank are taken away. -/
theorem trim_append_blanks {first last : Char} (hfirst : cs.head? = some first)
    (hlast : cs.getLast? = some last) (h : first.isWhitespace = false)
    (h' : last.isWhitespace = false) (hblanks : ∀ c ∈ ds, c.isWhitespace = true) :
    trim (cs ++ ds) = cs := by
  obtain ⟨tail, rfl⟩ := List.head?_eq_some_iff.mp hfirst
  obtain ⟨front, hfront⟩ := List.getLast?_eq_some_iff.mp hlast
  have hreverse : ∀ c ∈ ds.reverse, c.isWhitespace = true := by simpa using hblanks
  rw [trim, List.cons_append, List.dropWhile_cons_of_neg (by simp [h]), ← List.cons_append, hfront,
    trimEnd, List.reverse_append, List.dropWhile_append_of_pos hreverse, List.reverse_append,
    List.reverse_singleton, List.singleton_append, List.dropWhile_cons_of_neg (by simp [h']),
    List.reverse_cons, List.reverse_reverse]

/-- What stands before a character that is no blank is kept. -/
theorem prefix_trim {front rest : List Char} {first c : Char} (hfirst : front.head? = some first)
    (h : first.isWhitespace = false) (h' : c.isWhitespace = false) :
    front ++ [c] <+: trim (front ++ c :: rest) := by
  obtain ⟨tail, rfl⟩ := List.head?_eq_some_iff.mp hfirst
  have htrim : trim (first :: tail ++ c :: rest) = trimEnd (first :: tail ++ c :: rest) := by
    rw [trim, List.cons_append, List.dropWhile_cons_of_neg (by simp [h])]
  have hkept : (c :: (first :: tail).reverse).dropWhile Char.isWhitespace =
      c :: (first :: tail).reverse := List.dropWhile_cons_of_neg (by simp [h'])
  have hreverse : (first :: tail ++ c :: rest).reverse =
      rest.reverse ++ (c :: (first :: tail).reverse) := by
    rw [List.reverse_append, List.reverse_cons (a := c), List.append_assoc, List.singleton_append]
  rw [htrim, trimEnd, hreverse, List.dropWhile_append]
  split
  · have hall : ((c :: (first :: tail).reverse).dropWhile Char.isWhitespace).reverse =
        first :: tail ++ [c] := by
      rw [hkept, List.reverse_cons (a := c), List.reverse_reverse]
    exact hall ▸ List.prefix_refl _
  · rw [List.reverse_append, List.reverse_cons (a := c), List.reverse_reverse]
    exact List.prefix_append _ _

theorem trim_eq_self {first last : Char} (hfirst : cs.head? = some first)
    (hlast : cs.getLast? = some last) (h : first.isWhitespace = false)
    (h' : last.isWhitespace = false) : trim cs = cs := by
  have hnone : ∀ c ∈ ([] : List Char), c.isWhitespace = true := nofun
  have htrim := trim_append_blanks hfirst hlast h h' hnone
  rwa [List.append_nil] at htrim

theorem infix_trim (cs : List Char) : trim cs <:+: cs := by
  have hend : ∀ ds, trimEnd ds <+: ds := by
    intro ds
    rw [trimEnd, ← List.reverse_suffix, List.reverse_reverse]
    exact List.dropWhile_suffix _
  exact (hend _).isInfix.trans (List.dropWhile_suffix _).isInfix

end Cuts

section Shows

variable {code code' : Code} {parts parts' : List Clause}

theorem Shows.clauses_eq (h : Shows code parts) : clauses (render code) = parts := by
  obtain ⟨cs, ⟨xs, hxs, rfl⟩, hcut⟩ := h 0
  have hcut := hcut []
  rw [List.append_nil] at hcut
  rw [deepen_zero] at hxs
  rw [clauses, hxs.lexemes_eq, hcut]
  exact List.append_nil parts

theorem shows_nil : Shows [] [] := fun _ => ⟨[], looksLike_empty, cuts_nil⟩

theorem Shows.append (h : Shows code parts) (h' : Shows code' parts') :
    Shows (code ++ code') (parts ++ parts') := by
  intro n
  obtain ⟨cs, hcs, hcut⟩ := h n
  obtain ⟨ds, hds, hcut'⟩ := h' n
  rw [deepen_append, render_append]
  exact ⟨cs ++ ds, hcs.append hds, hcut.append hcut'⟩

theorem Shows.indent (h : Shows code parts) : Shows (indent code) parts := by
  intro n
  rw [indent_eq_deepen, deepen_deepen]
  exact h (1 + n)

theorem toList_margin (n : Nat) : (margin n).toList = List.replicate (2 * n) ' ' := by
  induction n with
  | zero => rfl
  | succ n ih =>
    rw [margin, List.replicate_succ, String.join_cons, String.toList_append]
    show ("  ").toList ++ (margin n).toList = _
    rw [ih, Nat.mul_succ, Nat.add_comm, List.replicate_add]
    rfl

theorem isWhitespace_of_mem_margin {n : Nat} {c : Char} (h : c ∈ (margin n).toList) :
    c.isWhitespace = true := by
  rw [toList_margin] at h
  obtain rfl := List.eq_of_mem_replicate h
  rfl

theorem looksLike_margin (n : Nat) : LooksLike (margin n) (margin n).toList := by
  refine looksLike_plain fun c hc => ?_
  rw [toList_margin] at hc
  obtain rfl := List.eq_of_mem_replicate hc
  rfl

theorem looksLike_break : LooksLike "\n" ['\n'] := looksLike_plain (by decide)

theorem shows_line {text : String} {cs : List Char} (hne : text ≠ "") (h : LooksLike text cs)
    (hcut : Cuts cs parts) : Shows (lines [text]) parts := by
  intro n
  have hblank : Cuts ['\n'] [] := cuts_blanks (by decide)
  have hmargin : Cuts (margin n).toList [] := cuts_blanks fun _ => isWhitespace_of_mem_margin
  rw [render_deepen_line n hne]
  refine ⟨_, ((looksLike_margin n).append h).append looksLike_break, ?_⟩
  have hall := (hmargin.append hcut).append hblank
  rwa [List.nil_append, List.append_nil] at hall

theorem shows_blank : Shows blank [] := by
  intro n
  rw [render_deepen_blank]
  exact ⟨_, looksLike_break, cuts_blanks (by decide)⟩

theorem shows_clause {text : String} {cs : List Char} {stop : Char} (h : LooksLike text (cs ++ [stop]))
    (hcs : ∀ c ∈ cs, isStop c = false) (hstop : isStop stop = true) :
    Shows (lines [text]) [⟨String.ofList (trim cs), some stop⟩] := by
  refine shows_line ?_ h (cuts_clause hcs hstop)
  rintro rfl
  obtain ⟨xs, hxs, hvisible⟩ := h
  -- An empty text has no lexemes.
  obtain rfl : xs = [] := hxs.lexemes_eq.symm
  simp at hvisible

theorem shows_closingBrace : Shows (lines ["\x7d"]) [⟨"", some '\x7d'⟩] := by
  have hlook : LooksLike "\x7d" ([] ++ ['\x7d']) := looksLike_plain (by decide)
  exact shows_clause hlook nofun (by decide)

/-- A block shows what opens it, what it holds, and the brace that closes it. -/
theorem Shows.block {opening : String} {cs : List Char} (h : LooksLike opening (cs ++ ['\x7b']))
    (hcs : ∀ c ∈ cs, isStop c = false) (hbody : Shows code parts) :
    Shows (block opening code)
      (⟨String.ofList (trim cs), some '\x7b'⟩ :: parts ++ [⟨"", some '\x7d'⟩]) :=
  ((shows_clause h hcs (by decide)).append hbody.indent).append shows_closingBrace

/-- The brace that opens a block may stand in a line of its own. -/
theorem shows_opening (text : String) (first last : Char) {cs : List Char} (htext : text.toList = cs)
    (h : ∀ c ∈ cs, isPlainChar c = true ∧ isStop c = false)
    (hfirst : cs.head? = some first) (hlast : cs.getLast? = some last)
    (hblank : first.isWhitespace = false ∧ last.isWhitespace = false) :
    Shows (lines [text, "\x7b"]) [⟨text, some '\x7b'⟩] := by
  subst htext
  intro n
  have hne : text ≠ "" := by
    rintro rfl
    cases hfirst
  have hbrace : LooksLike "\x7b" ['\x7b'] := looksLike_plain (by decide)
  have hlook := (looksLike_margin n).append (((looksLike_plain fun c hc => (h c hc).1).append
    (looksLike_break.append (looksLike_margin n))).append (hbrace.append looksLike_break))
  have hrender : render (deepen n (lines [text, "\x7b"])) =
      margin n ++ (text ++ ("\n" ++ margin n) ++ ("\x7b" ++ "\n")) := by
    rw [render_deepen_lines n (by simpa using hne)]
    simp [String.join_cons, String.append_assoc]
  have hblanks : ∀ c ∈ '\n' :: (margin n).toList, c.isWhitespace = true := by
    intro c hc
    rcases List.mem_cons.mp hc with rfl | hc
    · rfl
    · exact isWhitespace_of_mem_margin hc
  have hstops : ∀ c ∈ text.toList ++ '\n' :: (margin n).toList, isStop c = false := by
    intro c hc
    rcases List.mem_append.mp hc with hc | hc
    · exact (h c hc).2
    · exact isStop_of_isWhitespace (hblanks c hc)
  have hmargin : Cuts (margin n).toList [] := cuts_blanks fun _ => isWhitespace_of_mem_margin
  have hbreak : Cuts ['\n'] [] := cuts_blanks (by decide)
  have hcut := hmargin.append ((cuts_clause hstops (by decide : isStop '\x7b' = true)).append hbreak)
  rw [trim_append_blanks hfirst hlast hblank.1 hblank.2 hblanks, String.ofList_toList] at hcut
  rw [hrender]
  refine ⟨_, hlook, ?_⟩
  simpa using hcut

theorem shows_lineComment {text : String} (h : '\n' ∉ text.toList) (hend : '?' ∉ text.toList) :
    Shows (lines ["//" ++ text]) [] := by
  intro n
  have htext : render (deepen n (lines ["//" ++ text])) = margin n ++ ("//" ++ text ++ "\n") := by
    rw [render_deepen_line n (by simp [String.append_eq_empty_iff]), String.append_assoc]
  have hcomment : LooksLike ("//" ++ text ++ "\n") ['\n'] :=
    ⟨_, lexes_lineComment h hend, rfl⟩
  rw [htext]
  refine ⟨_, (looksLike_margin n).append hcomment, ?_⟩
  exact (cuts_blanks fun _ => isWhitespace_of_mem_margin).append (cuts_blanks (by decide))

/-- The margins of the lines inside a comment are part of the comment. -/
theorem render_blockComment (n : Nat) (first last : String) {middle : List String}
    (h : ∀ s ∈ middle, s ≠ "" ∧ '/' ∉ s.toList) (hfirst : '/' ∉ first.toList)
    (hlast : '/' ∉ last.toList) :
    ∃ text, '/' ∉ text.toList ∧
      render (deepen n (lines (["/*" ++ first] ++ middle ++ [last ++ "*/"]))) =
        margin n ++ ("/*" ++ text ++ "*/") ++ "\n" := by
  refine ⟨first ++ "\n" ++ String.join (middle.map fun s => margin n ++ s ++ "\n") ++
    (margin n ++ last), ?_, ?_⟩
  · have hmargin : '/' ∉ (margin n).toList := by
      intro hc
      cases isWhitespace_of_mem_margin hc
    simp only [String.toList_append, List.mem_append, not_or]
    refine ⟨⟨⟨hfirst, by simp⟩, ?_⟩, hmargin, hlast⟩
    rw [String.toList_join, List.mem_flatMap]
    rintro ⟨line, hline, hc⟩
    obtain ⟨s, hs, rfl⟩ := List.mem_map.mp hline
    simp only [String.toList_append, List.mem_append] at hc
    rcases hc with (hc | hc) | hc
    · exact hmargin hc
    · exact (h s hs).2 hc
    · simp at hc
  · rw [render_deepen_lines n]
    · apply String.ext
      simp [String.append_assoc]
    · intro s hs
      simp only [List.mem_append, List.mem_singleton] at hs
      rcases hs with (rfl | hs) | rfl
      · simp [String.append_eq_empty_iff]
      · exact (h s hs).1
      · simp [String.append_eq_empty_iff]

/-- A comment over several lines shows nothing. -/
theorem shows_blockComment (first last : String) {middle : List String}
    (h : ∀ s ∈ middle, s ≠ "" ∧ '/' ∉ s.toList) (hfirst : '/' ∉ first.toList)
    (hlast : '/' ∉ last.toList) :
    Shows (lines (["/*" ++ first] ++ middle ++ [last ++ "*/"])) [] := by
  intro n
  obtain ⟨text, hslash, htext⟩ := render_blockComment n first last h hfirst hlast
  have hcomment : LooksLike ("/*" ++ text ++ "*/") [' '] := ⟨_, lexes_blockComment hslash, rfl⟩
  rw [htext]
  refine ⟨_, ((looksLike_margin n).append hcomment).append looksLike_break, ?_⟩
  exact ((cuts_blanks fun _ => isWhitespace_of_mem_margin).append (cuts_blanks (by decide))).append
    (cuts_blanks (by decide))

end Shows

end ProtoPhp.Php
