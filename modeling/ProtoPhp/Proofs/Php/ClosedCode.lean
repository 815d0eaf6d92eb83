/-
Code whose braces match.

A brace outside of comments and literals opens or closes a block.  A piece of code is
closed if its reading ends outside of comments and literals, if it closes no block
that it did not open, and if it leaves none open.  Whatever closed pieces say, they
can be put one after the other and into blocks.  The literals of a piece are told
along with it, since a text that broke out of its literal would show there first.

* `Php.depth`, `Php.Closed` — the number of open blocks, and lexemes whose braces match;
* `Php.PrintsClosed` — a piece of code that is closed at any depth, and its literals;
* `Php.printsClosed_line`, `Php.PrintsClosed.append`, `Php.PrintsClosed.enclose` — how
  pieces are put together;
* `Php.IsClosedSource`, `Php.PrintsClosed.isClosedSource` — a source that is one block.
-/
import ProtoPhp.Proofs.Php.QuietCode

namespace ProtoPhp.Php

open Text

/-- By how much a lexeme changes the number of open blocks. -/
def Lexeme.nesting : Lexeme → Int
  | code '\x7b' => 1
  | code '\x7d' => -1
  | _ => 0

def Lexeme.isLiteral : Lexeme → Bool
  | literal _ _ => true
  | code _ | unfinished => false

/-- The number of blocks that are open behind some lexemes. -/
def depth : List Lexeme → Int
  | [] => 0
  | x :: xs => x.nesting + depth xs

/-- Lexemes that come to an end, and whose braces match; and the literals among them. -/
structure Closed (xs literals : List Lexeme) : Prop where
  finished : Lexeme.unfinished ∉ xs
  /-- No more blocks are closed than are open. -/
  nonneg : ∀ before after, xs = before ++ after → 0 ≤ depth before
  /-- All blocks are closed in the end. -/
  settled : depth xs = 0
  literals_eq : xs.filter Lexeme.isLiteral = literals

/-- A text that starts and ends outside of comments and literals, and whose braces match. -/
def LexesClosed (text : String) (literals : List Lexeme) : Prop :=
  ∃ xs, Lexes text xs ∧ Closed xs literals

/-- A piece of code that is closed, however deep it stands. -/
def PrintsClosed (code : Code) (literals : List Lexeme) : Prop :=
  ∀ n, LexesClosed (render (deepen n code)) literals

section Depth

@[simp] theorem depth_nil : depth [] = 0 := rfl

@[simp] theorem depth_cons (x : Lexeme) (xs : List Lexeme) :
    depth (x :: xs) = x.nesting + depth xs := rfl

@[simp] theorem depth_append (xs ys : List Lexeme) : depth (xs ++ ys) = depth xs + depth ys := by
  induction xs with
  | nil => simp
  | cons x xs ih => rw [List.cons_append, depth_cons, depth_cons, ih, Int.add_assoc]

theorem nesting_code {c : Char} (h : c ≠ '\x7b' ∧ c ≠ '\x7d') : (Lexeme.code c).nesting = 0 := by
  unfold Lexeme.nesting
  split
  · rename_i heq
    exact absurd (Lexeme.code.inj heq) h.1
  · rename_i heq
    exact absurd (Lexeme.code.inj heq) h.2
  · rfl

/-- Lexemes without braces leave the depth alone. -/
theorem depth_eq_zero {xs : List Lexeme} (h : ∀ x ∈ xs, x.nesting = 0) : depth xs = 0 := by
  induction xs with
  | nil => rfl
  | cons x xs ih =>
    rw [depth_cons, h x List.mem_cons_self, Int.zero_add]
    exact ih fun y hy => h y (List.mem_cons_of_mem _ hy)

end Depth

section Closed

variable {xs ys literals literals' : List Lexeme}

theorem closed_nil : Closed [] [] where
  finished := nofun
  nonneg := by
    intro before after h
    rw [(List.append_eq_nil_iff.mp h.symm).1]
    exact Int.le_refl 0
  settled := rfl
  literals_eq := rfl

/-- Lexemes that open and close nothing. -/
theorem closed_of_nesting (h : ∀ x ∈ xs, x.nesting = 0) (hfinished : Lexeme.unfinished ∉ xs) :
    Closed xs (xs.filter Lexeme.isLiteral) where
  finished := hfinished
  nonneg := by
    rintro before after rfl
    exact Int.le_of_eq (depth_eq_zero fun x hx => h x (List.mem_append_left _ hx)).symm
  settled := depth_eq_zero h
  literals_eq := rfl

theorem Closed.append (h : Closed xs literals) (h' : Closed ys literals') :
    Closed (xs ++ ys) (literals ++ literals') where
  finished := by
    rw [List.mem_append, not_or]
    exact ⟨h.finished, h'.finished⟩
  nonneg := by
    intro before after hsplit
    rcases List.append_eq_append_iff.mp hsplit with ⟨rest, rfl, hys⟩ | ⟨rest, hxs, -⟩
    · -- What was opened by the first piece is closed, so only the second one counts.
      rw [depth_append, h.settled, Int.zero_add]
      exact h'.nonneg rest after hys
    · exact h.nonneg before rest hxs
  settled := by rw [depth_append, h.settled, h'.settled, Int.add_zero]
  literals_eq := by rw [List.filter_append, h.literals_eq, h'.literals_eq]

/-- Where the depth stands on the way through a block. -/
theorem Closed.depth_of_split (h : Closed xs literals) {before after : List Lexeme}
    (hsplit : .code '\x7b' :: (xs ++ [.code '\x7d']) = before ++ after) :
    (before = [] ∧ depth before = 0) ∨ (after = [] ∧ depth before = 0) ∨
      .code '\x7b' ∈ before ∧ .code '\x7d' ∈ after ∧ 1 ≤ depth before := by
  have hopen : (Lexeme.code '\x7b').nesting = 1 := rfl
  have hclose : (Lexeme.code '\x7d').nesting = -1 := rfl
  rcases List.cons_eq_append_iff.mp hsplit with ⟨rfl, -⟩ | ⟨inner, rfl, hinner⟩
  · exact .inl ⟨rfl, rfl⟩
  · refine .inr ?_
    rcases List.append_eq_append_iff.mp hinner with ⟨rest, rfl, hrest⟩ | ⟨rest, hxs, rfl⟩
    · rcases List.singleton_eq_append_iff.mp hrest with ⟨rfl, rfl⟩ | ⟨rfl, rfl⟩
      · refine .inr ⟨List.mem_cons_self, List.mem_cons_self, ?_⟩
        simp [hopen, h.settled]
      · refine .inl ⟨rfl, ?_⟩
        simp [hopen, hclose, h.settled]
    · have hinside := h.nonneg inner rest hxs
      refine .inr ⟨List.mem_cons_self, by simp, ?_⟩
      rw [depth_cons, hopen]
      omega

/-- A block of closed lexemes is closed. -/
theorem Closed.block (h : Closed xs literals) :
    Closed (.code '\x7b' :: (xs ++ [.code '\x7d'])) literals where
  finished := by simpa using h.finished
  nonneg := by
    intro before after hsplit
    rcases h.depth_of_split hsplit with ⟨-, hzero⟩ | ⟨-, hzero⟩ | ⟨-, -, hone⟩
    · exact Int.le_of_eq hzero.symm
    · exact Int.le_of_eq hzero.symm
    · omega
  settled := by
    have hopen : (Lexeme.code '\x7b').nesting = 1 := rfl
    have hclose : (Lexeme.code '\x7d').nesting = -1 := rfl
    simp [hopen, hclose, h.settled]
  literals_eq := by simpa [Lexeme.isLiteral] using h.literals_eq

end Closed

section LexesClosed

variable {a b text : String} {literals literals' : List Lexeme}

theorem LexesClosed.append (ha : LexesClosed a literals) (hb : LexesClosed b literals') :
    LexesClosed (a ++ b) (literals ++ literals') := by
  obtain ⟨xs, hxs, hclosed⟩ := ha
  obtain ⟨ys, hys, hclosed'⟩ := hb
  exact ⟨xs ++ ys, hxs.append hys, hclosed.append hclosed'⟩

/-- A character that stands for itself and is no brace. -/
def isFlatChar (c : Char) : Bool := isPlainChar c && c != '\x7b' && c != '\x7d'

/-- A text without braces, comments and literals. -/
def IsFlat (text : String) : Prop := ∀ c ∈ text.toList, isFlatChar c = true

instance (text : String) : Decidable (IsFlat text) :=
  inferInstanceAs (Decidable (∀ c ∈ text.toList, isFlatChar c = true))

theorem IsFlat.append (ha : IsFlat a) (hb : IsFlat b) : IsFlat (a ++ b) := by
  intro c hc
  rw [String.toList_append, List.mem_append] at hc
  exact hc.elim (ha c) (hb c)

/-- Whether a text is flat is decided along its characters. -/
theorem isFlat_of_all {cs : List Char} (htext : text.toList = cs) (h : cs.all isFlatChar = true) :
    IsFlat text := by
  intro c hc
  rw [htext] at hc
  exact List.all_eq_true.mp h c hc

theorem isFlatChar_of_isQuietChar {c : Char} (h : isQuietChar c = true) : isFlatChar c = true := by
  simp only [isQuietChar, isStop, Bool.and_eq_true, Bool.not_eq_true', decide_eq_false_iff_not,
    List.mem_cons, List.not_mem_nil, or_false, not_or] at h
  simp [isFlatChar, h.1.1, h.1.2]

theorem isFlatChar_of_isInertChar {c : Char} (h : isInertChar c = true) : isFlatChar c = true :=
  isFlatChar_of_isQuietChar (isQuietChar_of_isInertChar h)

theorem IsQuietText.isFlat (h : IsQuietText text) : IsFlat text :=
  fun c hc => isFlatChar_of_isQuietChar (h c hc)

theorem isFlat_semicolon : IsFlat ";" := by decide

theorem isFlat_of_isInert (h : IsInert text) : IsFlat text :=
  fun c hc => isFlatChar_of_isInertChar (h c hc)

theorem lexes_flat (h : IsFlat text) : Lexes text (text.toList.map .code) := by
  refine lexes_plain fun c hc => ?_
  have hflat := h c hc
  simp only [isFlatChar, Bool.and_eq_true] at hflat
  exact hflat.1.1

theorem nesting_of_isFlat (h : IsFlat text) : ∀ x ∈ text.toList.map Lexeme.code, x.nesting = 0 := by
  intro x hx
  obtain ⟨c, hc, rfl⟩ := List.mem_map.mp hx
  have hflat := h c hc
  simp only [isFlatChar, Bool.and_eq_true, bne_iff_ne] at hflat
  exact nesting_code ⟨hflat.1.2, hflat.2⟩

theorem closed_of_isFlat (h : IsFlat text) : Closed (text.toList.map .code) [] := by
  have hnone : (text.toList.map Lexeme.code).filter Lexeme.isLiteral = [] := by
    simp [List.filter_eq_nil_iff, Lexeme.isLiteral]
  rw [← hnone]
  exact closed_of_nesting (nesting_of_isFlat h) (by simp)

theorem lexesClosed_flat (h : IsFlat text) : LexesClosed text [] :=
  ⟨_, lexes_flat h, closed_of_isFlat h⟩

/-- The literal of a text as it is read. -/
def textLexeme (text : String) : Lexeme := .literal '"' (escapeChars text.toList)

/-- The quoted name of a class as it is read. -/
def classLexeme (ns : Namespace) : Lexeme :=
  .literal '\'' ("\\" ++ "\\".intercalate ns.segments).toList

theorem lexesClosed_quote (text : String) : LexesClosed (quote text) [textLexeme text] :=
  ⟨_, lexes_quote text, closed_of_nesting (by simp [Lexeme.nesting]) (by simp)⟩

theorem lexesClosed_className {ns : Namespace} (h : ns.HasWords) (hne : ns ≠ .root) :
    LexesClosed ("'" ++ absolute ns ++ "'") [classLexeme ns] :=
  ⟨_, lexes_className h hne, closed_of_nesting (by simp [Lexeme.nesting]) (by simp)⟩

theorem lexes_braces {xs : List Lexeme} (h : Lexes text xs) :
    Lexes ("\x7b" ++ text ++ "\x7d") (.code '\x7b' :: (xs ++ [.code '\x7d'])) := by
  have hopening : Lexes "\x7b" [.code '\x7b'] := lexes_plain (by decide)
  have hclosing : Lexes "\x7d" [.code '\x7d'] := lexes_plain (by decide)
  exact (hopening.append h).append hclosing

theorem LexesClosed.braces (h : LexesClosed text literals) :
    LexesClosed ("\x7b" ++ text ++ "\x7d") literals := by
  obtain ⟨xs, hxs, hclosed⟩ := h
  exact ⟨_, lexes_braces hxs, hclosed.block⟩

theorem lexesClosed_margin (n : Nat) : LexesClosed (margin n) [] := by
  refine lexesClosed_flat fun c hc => ?_
  rw [toList_margin] at hc
  obtain rfl := List.eq_of_mem_replicate hc
  rfl

theorem lexesClosed_break : LexesClosed "\n" [] := lexesClosed_flat (by decide)

end LexesClosed

section PrintsClosed

variable {code code' : Code} {literals literals' : List Lexeme} {text : String}

theorem printsClosed_nil : PrintsClosed [] [] := fun _ => ⟨[], lexes_empty, closed_nil⟩

theorem PrintsClosed.append (h : PrintsClosed code literals) (h' : PrintsClosed code' literals') :
    PrintsClosed (code ++ code') (literals ++ literals') := by
  intro n
  rw [deepen_append, render_append]
  exact (h n).append (h' n)

theorem printsClosed_flatMap {α : Type} {f : α → Code} {g : α → List Lexeme} {xs : List α}
    (h : ∀ x ∈ xs, PrintsClosed (f x) (g x)) : PrintsClosed (xs.flatMap f) (xs.flatMap g) := by
  induction xs with
  | nil => exact printsClosed_nil
  | cons x xs ih =>
    rw [List.flatMap_cons, List.flatMap_cons]
    exact (h x List.mem_cons_self).append (ih fun y hy => h y (List.mem_cons_of_mem _ hy))

theorem printsClosed_blank : PrintsClosed blank [] := by
  intro n
  rw [render_deepen_blank]
  exact lexesClosed_break

theorem printsClosed_line (h : LexesClosed text literals) : PrintsClosed (lines [text]) literals := by
  intro n
  by_cases hne : text = ""
  · -- Nothing is read in an empty line.
    obtain ⟨xs, hxs, hclosed⟩ := h
    obtain rfl : xs = [] := by rw [← hxs.lexemes_eq, hne]; rfl
    obtain rfl := hclosed.literals_eq.symm
    rw [hne]
    exact printsClosed_blank n
  · rw [render_deepen_line n hne]
    have hline := ((lexesClosed_margin n).append h).append lexesClosed_break
    rwa [List.nil_append, List.append_nil] at hline

theorem printsClosed_flat (text : String) (h : IsFlat text) : PrintsClosed (lines [text]) [] :=
  printsClosed_line (lexesClosed_flat h)

theorem printsClosed_flats {texts : List String} (h : ∀ s ∈ texts, IsFlat s) :
    PrintsClosed (lines texts) [] := by
  have hlines := printsClosed_flatMap fun s hs => printsClosed_flat s (h s hs)
  rw [lines_eq_flatMap]
  rwa [List.flatMap_eq_nil_iff.mpr fun _ _ => rfl] at hlines

/-- A line whose text is known. -/
theorem printsClosed_words (text : String) {cs : List Char} (htext : text.toList = cs)
    (h : cs.all isFlatChar = true) : PrintsClosed (lines [text]) [] :=
  printsClosed_flat text (isFlat_of_all htext h)

/-- A statement that starts and ends in a known way. -/
theorem printsClosed_statement (front : String) {cs : List Char} (hfront : front.toList = cs)
    (h : cs.all isFlatChar = true) {back : String} (hback : IsFlat back)
    (htext : LexesClosed text literals) : PrintsClosed (lines [front ++ text ++ back]) literals := by
  have hall := ((lexesClosed_flat (isFlat_of_all hfront h)).append htext).append (lexesClosed_flat hback)
  rw [List.nil_append, List.append_nil] at hall
  exact printsClosed_line hall

theorem printsClosed_lineComment (text : String) (h : '\n' ∉ text.toList) (hend : '?' ∉ text.toList) :
    PrintsClosed (lines ["//" ++ text]) [] := by
  intro n
  have hcomment : LexesClosed ("//" ++ text ++ "\n") [] :=
    ⟨_, lexes_lineComment h hend, closed_of_nesting (by simp [nesting_code]) (by simp)⟩
  rw [render_deepen_line n (by simp [String.append_eq_empty_iff]), String.append_assoc]
  exact (lexesClosed_margin n).append hcomment

theorem lexesClosed_blockComment (text : String) (h : '/' ∉ text.toList) :
    LexesClosed ("/*" ++ text ++ "*/") [] :=
  ⟨_, lexes_blockComment h, closed_of_nesting (by simp [nesting_code]) (by simp)⟩

/-- A comment over several lines. -/
theorem printsClosed_blockComment (first last : String) {middle : List String}
    (h : ∀ s ∈ middle, s ≠ "" ∧ '/' ∉ s.toList) (hfirst : '/' ∉ first.toList)
    (hlast : '/' ∉ last.toList) :
    PrintsClosed (lines (["/*" ++ first] ++ middle ++ [last ++ "*/"])) [] := by
  intro n
  obtain ⟨text, hslash, htext⟩ := render_blockComment n first last h hfirst hlast
  rw [htext]
  exact ((lexesClosed_margin n).append (lexesClosed_blockComment text hslash)).append lexesClosed_break

/-- The text of a block: what opens it up to the brace, and what closes it from the brace on. -/
theorem render_deepen_enclose (n : Nat) (front back : String) (code : Code) :
    render (deepen n (enclose (front ++ "\x7b") code ("\x7d" ++ back))) =
      margin n ++ front ++ ("\x7b" ++ ("\n" ++ render (deepen (n + 1) code) ++ margin n) ++ "\x7d") ++
        back ++ "\n" := by
  rw [enclose, indent_eq_deepen, deepen_append, deepen_append, deepen_deepen, render_append, render_append,
    render_deepen_line n (by simp [String.append_eq_empty_iff]),
    render_deepen_line n (by simp [String.append_eq_empty_iff]), Nat.add_comm 1 n]
  simp only [String.append_assoc]

/-- A block is closed if what it holds is. -/
theorem PrintsClosed.enclose {front back : String} (h : PrintsClosed code literals) (hfront : IsFlat front)
    (hback : IsFlat back) : PrintsClosed (enclose (front ++ "\x7b") code ("\x7d" ++ back)) literals := by
  intro n
  have hbody := ((lexesClosed_break.append (h (n + 1))).append (lexesClosed_margin n)).braces
  have hall := ((((lexesClosed_margin n).append (lexesClosed_flat hfront)).append hbody).append
    (lexesClosed_flat hback)).append lexesClosed_break
  rw [render_deepen_enclose]
  simpa using hall

theorem PrintsClosed.block (h : PrintsClosed code literals) (opening front : String)
    (hopening : opening = front ++ "\x7b") (hfront : IsFlat front) :
    PrintsClosed (Php.block opening code) literals := by
  have hback : IsFlat "" := by decide
  have hblock := h.enclose hfront hback
  rwa [String.append_empty, ← hopening] at hblock

end PrintsClosed

/-- A source that is one block, with some words in front of the brace that opens it. -/
structure IsClosedSource (source front : String) (literals : List Lexeme) : Prop where
  /-- What follows the source is read as code. -/
  ends : Lexes source (lexemes source)
  finished : Lexeme.unfinished ∉ lexemes source
  /-- The first brace is the one behind the words in front. -/
  opens : front.toList.map .code ++ [.code '\x7b'] <+: lexemes source
  nonneg : ∀ before after, lexemes source = before ++ after → 0 ≤ depth before
  /-- The block is open from its brace up to the last brace of the source. -/
  depth_eq_zero_iff : ∀ before after, lexemes source = before ++ after →
    (depth before = 0 ↔ .code '\x7b' ∉ before ∨ .code '\x7d' ∉ after)
  literals_eq : (lexemes source).filter Lexeme.isLiteral = literals

/-- Inside of a block with words around it, and only there, the depth is not zero. -/
theorem Closed.depth_eq_zero_iff {xs literals words tail before after : List Lexeme} (h : Closed xs literals)
    (hwords : ∀ x ∈ words, x.nesting = 0) (htail : ∀ x ∈ tail, x.nesting = 0)
    (hsplit : words ++ (.code '\x7b' :: (xs ++ [.code '\x7d'])) ++ tail = before ++ after) :
    depth before = 0 ↔ .code '\x7b' ∉ before ∨ .code '\x7d' ∉ after := by
  have hopening : .code '\x7b' ∉ words := fun hmem => absurd (hwords _ hmem) (by decide)
  have hclosing : .code '\x7d' ∉ tail := fun hmem => absurd (htail _ hmem) (by decide)
  rw [List.append_assoc] at hsplit
  rcases List.append_eq_append_iff.mp hsplit with ⟨middle, rfl, hrest⟩ | ⟨rest, rfl, -⟩
  · rw [depth_append, depth_eq_zero hwords, Int.zero_add]
    rcases List.append_eq_append_iff.mp hrest with ⟨rest, rfl, rfl⟩ | ⟨rest, hblock, rfl⟩
    · -- The block is closed already.
      have hrest : depth rest = 0 := depth_eq_zero fun x hx => htail x (List.mem_append_left _ hx)
      have hafter : .code '\x7d' ∉ after := fun hmem => hclosing (List.mem_append_right _ hmem)
      exact iff_of_true (by rw [depth_append, h.block.settled, hrest]; rfl) (.inr hafter)
    · rcases h.depth_of_split hblock with ⟨rfl, hzero⟩ | ⟨rfl, hzero⟩ | ⟨hopen, hclose, hone⟩
      · exact iff_of_true hzero (.inl (by simpa using hopening))
      · exact iff_of_true hzero (.inr (by simpa using hclosing))
      · refine iff_of_false (by omega) ?_
        rintro (hnone | hnone)
        · exact hnone (List.mem_append_right _ hopen)
        · exact hnone (List.mem_append_left _ hclose)
  · -- The block is not open yet.
    have hbefore : depth before = 0 := depth_eq_zero fun x hx => hwords x (List.mem_append_left _ hx)
    exact iff_of_true hbefore (.inl fun hmem => hopening (List.mem_append_left _ hmem))

/-- A block of closed code is a source of its own. -/
theorem PrintsClosed.isClosedSource {code : Code} {literals : List Lexeme} (h : PrintsClosed code literals)
    {front : String} (hfront : IsFlat front) :
    IsClosedSource (render (Php.block (front ++ "\x7b") code)) front literals := by
  obtain ⟨xs, hxs, hclosed⟩ := lexesClosed_break.append (h 1)
  rw [List.nil_append] at hclosed
  have htext : render (Php.block (front ++ "\x7b") code) =
      front ++ ("\x7b" ++ ("\n" ++ render (deepen 1 code)) ++ "\x7d") ++ "\n" := by
    have hzero := render_deepen_enclose 0 front "" code
    have hmargin : margin 0 = "" := rfl
    rwa [deepen_zero, hmargin, String.empty_append, String.append_empty, String.append_empty,
      String.append_empty] at hzero
  have hwords := closed_of_isFlat hfront
  have hline : IsFlat "\n" := by decide
  have hbreak : Closed [.code '\n'] [] := closed_of_isFlat hline
  have hall := (hwords.append hclosed.block).append hbreak
  rw [List.nil_append, List.append_nil] at hall
  have hlexes : Lexes (render (Php.block (front ++ "\x7b") code))
      (front.toList.map .code ++ (.code '\x7b' :: (xs ++ [.code '\x7d'])) ++ [.code '\n']) := by
    have hbreak : Lexes "\n" [.code '\n'] := lexes_plain (by decide)
    rw [htext]
    exact ((lexes_flat hfront).append (lexes_braces hxs)).append hbreak
  have heq := hlexes.lexemes_eq
  exact
    { ends := heq ▸ hlexes
      finished := heq ▸ hall.finished
      opens := heq ▸ ⟨xs ++ [.code '\x7d'] ++ [.code '\n'], by simp⟩
      nonneg := heq ▸ hall.nonneg
      depth_eq_zero_iff := by
        intro before after hsplit
        rw [heq] at hsplit
        exact hclosed.depth_eq_zero_iff (nesting_of_isFlat hfront) (by simp [nesting_code]) hsplit
      literals_eq := heq ▸ hall.literals_eq }

end ProtoPhp.Php
