/-
Reading texts piece by piece.

A reader takes characters from the front of a text and leaves the rest.  It reads
a piece of text if it takes this piece and no more, whatever stands behind it;
pieces that are read one after the other make a text that is read as a whole.  A
reader that has to look ahead knows one mark, and reads a piece only in front of
texts that do not start with it.

* `Reader.Reads.bind`, `Reader.ReadsBefore.bind` — one piece after the other;
* `Reader.readsBefore_many` — any number of pieces that all start with the mark;
* `Reader.reads_quoted` — a quoted text ends where it should, whatever it says.
-/
import ProtoPhp.Php.Literal

namespace ProtoPhp

/-- Takes characters from the front of a text, if they are as they should be. -/
abbrev Reader := StateT (List Char) Option

namespace Reader

variable {α β : Type}

/-- Takes a fixed text. -/
def exact (text : String) : Reader Unit := fun cs =>
  if text.toList.isPrefixOf cs then some ((), cs.drop text.toList.length) else none

/-- Takes what stands before a character, and the character. -/
def upTo (stop : Char) : Reader String := fun cs =>
  match cs.dropWhile (· != stop) with
  | [] => none
  | _ :: rest => some (String.ofList (cs.takeWhile (· != stop)), rest)

/-- The rest of a text between double quotes, with the closing quote. -/
def closing : List Char → Option (List Char × List Char)
  | [] => none
  | '"' :: cs => some (['"'], cs)
  | '\\' :: c :: cs => (closing cs).map fun r => ('\\' :: c :: r.1, r.2)
  | c :: cs => (closing cs).map fun r => (c :: r.1, r.2)

/-- Takes a text between double quotes, with the quotes. -/
def quoted : Reader String := fun cs =>
  match cs with
  | '"' :: cs => (closing cs).map fun r => (String.ofList ('"' :: r.1), r.2)
  | _ => none

/-- Takes nothing, and fails without a value. -/
def given (x : Option α) : Reader α := fun cs => x.map (·, cs)

/-- Reads only a text that starts with a mark. -/
def optionally (mark : String) (r : Reader α) : Reader (Option α) := fun cs =>
  if mark.toList.isPrefixOf cs then (r cs).map fun p => (some p.1, p.2) else some (none, cs)

/-- Reads as long as the text starts with a mark.  A reading that takes nothing is a failure. -/
def many (mark : String) (r : Reader α) : Reader (List α) := fun cs =>
  if mark.toList.isPrefixOf cs then
    match r cs with
    | some (x, rest) =>
      if rest.length < cs.length then (many mark r rest).map fun p => (x :: p.1, p.2) else none
    | none => none
  else some ([], cs)
termination_by cs => cs.length

/-- Takes exactly the given text, whatever stands behind it. -/
def Reads (r : Reader α) (text : String) (x : α) : Prop :=
  ∀ rest, r (text.toList ++ rest) = some (x, rest)

/-- Takes exactly the given text in front of whatever does not start with the mark. -/
def ReadsBefore (mark : String) (r : Reader α) (text : String) (x : α) : Prop :=
  ∀ rest, mark.toList.isPrefixOf rest = false → r (text.toList ++ rest) = some (x, rest)

/-- Two texts that differ at a place that both have. -/
def differ : List Char → List Char → Bool
  | a :: as, b :: bs => a != b || differ as bs
  | _, _ => false

theorem isPrefixOf_append_of_differ {as bs : List Char} (h : differ as bs = true)
    (rest : List Char) : as.isPrefixOf (bs ++ rest) = false := by
  induction as generalizing bs with
  | nil => cases h
  | cons a as ih =>
    cases bs with
    | nil => cases h
    | cons b bs =>
      rw [differ, Bool.or_eq_true, bne_iff_ne] at h
      rw [List.cons_append, List.isPrefixOf_cons_cons, Bool.and_eq_false_iff, beq_eq_false_iff_ne]
      exact h.imp_right ih

theorem differ_append {as bs : List Char} (h : differ as bs = true) (cs : List Char) :
    differ as (bs ++ cs) = true := by
  induction as generalizing bs with
  | nil => cases h
  | cons a as ih =>
    cases bs with
    | nil => cases h
    | cons b bs =>
      rw [differ, Bool.or_eq_true] at h
      rw [List.cons_append, differ, Bool.or_eq_true]
      exact h.imp_right ih

section Reads

variable {r : Reader α} {k : α → Reader β} {a b mark : String} {x : α} {y : β}

/-- A text that is read after another one. -/
theorem Reads.bind (h : Reads r a x) (hk : Reads (k x) b y) : Reads (r >>= k) (a ++ b) y := by
  intro rest
  show (r ((a ++ b).toList ++ rest)).bind (fun p => k p.1 p.2) = _
  rw [String.toList_append, List.append_assoc, h]
  exact hk rest

theorem ReadsBefore.bind (h : ReadsBefore mark r a x) (hmark : differ mark.toList b.toList = true)
    (hk : Reads (k x) b y) : Reads (r >>= k) (a ++ b) y := by
  intro rest
  show (r ((a ++ b).toList ++ rest)).bind (fun p => k p.1 p.2) = _
  rw [String.toList_append, List.append_assoc, h _ (isPrefixOf_append_of_differ hmark rest)]
  exact hk rest

theorem reads_pure (x : α) : Reads (pure x) "" x := fun _ => rfl

theorem Reads.bind_pure (h : Reads r a x) (f : α → β) :
    Reads (r >>= fun x => pure (f x)) a (f x) := by
  rw [← String.append_empty (s := a)]
  exact h.bind (reads_pure (f x))

theorem reads_given {o : Option α} (h : o = some x) : Reads (given o) "" x := by
  intro rest
  rw [given, h]
  rfl

theorem reads_exact (text : String) : Reads (exact text) text () := by
  intro rest
  have hstart : text.toList.isPrefixOf (text.toList ++ rest) = true := by simp
  rw [exact, if_pos hstart, List.drop_left]

/-- What stands before the first character of a kind. -/
theorem reads_upTo {text : String} {stop : Char} (h : stop ∉ text.toList) {tail : String}
    (htail : tail.toList = [stop]) : Reads (upTo stop) (text ++ tail) text := by
  intro rest
  have hchars : ∀ c ∈ text.toList, (c != stop) = true := by
    intro c hc
    rw [bne_iff_ne]
    rintro rfl
    exact h hc
  rw [upTo, String.toList_append, htail, List.append_assoc, List.dropWhile_append_of_pos hchars,
    List.takeWhile_append_of_pos hchars]
  simp

theorem Reads.optionally (h : Reads r a x) (hmark : mark.toList <+: a.toList) :
    ReadsBefore mark (optionally mark r) a (some x) := by
  intro rest _
  have hstart : mark.toList.isPrefixOf (a.toList ++ rest) = true := by
    rw [List.isPrefixOf_iff_prefix]
    exact hmark.trans (List.prefix_append _ _)
  rw [Reader.optionally, if_pos hstart, h]
  rfl

theorem readsBefore_optionally_none (mark : String) (r : Reader α) :
    ReadsBefore mark (Reader.optionally mark r) "" none := by
  intro rest hrest
  rw [Reader.optionally, String.toList_empty, List.nil_append, hrest]
  rfl

/-- Pieces that all start with the mark are read up to the first text that does not. -/
theorem readsBefore_many {γ : Type} {mark : String} (hmark : mark ≠ "") {r : Reader α}
    {text : γ → String} {value : γ → α} {items : List γ}
    (h : ∀ i ∈ items, mark.toList <+: (text i).toList ∧ Reads r (text i) (value i)) :
    ReadsBefore mark (many mark r) (String.join (items.map text)) (items.map value) := by
  intro rest hrest
  induction items with
  | nil =>
    rw [List.map_nil, String.join_nil, String.toList_empty, List.nil_append, many, hrest]
    rfl
  | cons i items ih =>
    obtain ⟨hi, hread⟩ := h i List.mem_cons_self
    have hlater := ih fun j hj => h j (List.mem_cons_of_mem _ hj)
    have hstart : mark.toList.isPrefixOf
        ((text i).toList ++ ((String.join (items.map text)).toList ++ rest)) = true := by
      rw [List.isPrefixOf_iff_prefix]
      exact hi.trans (List.prefix_append _ _)
    -- The mark has a character, and so the piece has one.
    have hpos : 0 < (text i).toList.length :=
      Nat.lt_of_lt_of_le (List.length_pos_iff.mpr (by simpa using hmark)) hi.length_le
    rw [List.map_cons, String.join_cons, String.toList_append, List.append_assoc, many,
      if_pos hstart, hread]
    show (if _ then _ else _) = _
    rw [if_pos (by simp only [List.length_append]; omega), hlater]
    rfl

theorem reads_mapM {γ δ : Type} {r : δ → Reader α} {text : γ → String} {input : γ → δ}
    {value : γ → α} {items : List γ} (h : ∀ i ∈ items, Reads (r (input i)) (text i) (value i)) :
    Reads ((items.map input).mapM r) (String.join (items.map text)) (items.map value) := by
  induction items with
  | nil => exact reads_pure []
  | cons i items ih =>
    rw [List.map_cons, List.map_cons, List.map_cons, List.mapM_cons, String.join_cons]
    refine (h i List.mem_cons_self).bind ?_
    exact (ih fun j hj => h j (List.mem_cons_of_mem _ hj)).bind_pure _

end Reads

open Php in
/-- A quoted text ends at its closing quote. -/
theorem closing_escapeChars (cs rest : List Char) :
    closing (escapeChars cs ++ '"' :: rest) = some (escapeChars cs ++ ['"'], rest) := by
  induction cs with
  | nil => rfl
  | cons c cs ih =>
    rw [escapeChars_cons, escapeChar, List.append_assoc, List.append_assoc]
    by_cases hc : needsEscape c = true
    · rw [if_pos hc]
      show (closing (escapeChars cs ++ '"' :: rest)).map _ = _
      rw [ih]
      rfl
    · rw [if_neg hc]
      -- A character that needs no escape is neither the quote nor the backslash.
      have hplain : c ≠ '"' ∧ c ≠ '\\' := by
        refine ⟨?_, ?_⟩ <;> rintro rfl <;> exact hc rfl
      rw [List.singleton_append, closing, ih]
      · rfl
      · exact hplain.1
      · intro _ _ e
        exact absurd e hplain.2

/-- The literal of a text is read whole. -/
theorem reads_quoted (text : String) : Reads quoted (Php.quote text) (Php.quote text) := by
  intro rest
  rw [Php.toList_quote, List.cons_append, List.append_assoc]
  show (closing (Php.escapeChars text.toList ++ '"' :: rest)).map _ = _
  rw [closing_escapeChars]
  rfl

end Reader

end ProtoPhp
