/-
Identifiers.

The names of a schema are identifiers; what is written with them, with dots,
backslashes or slashes between, has no other characters.

* `Text.isIdentifier`, `Text.IsWord` — an identifier is a word that does not
  start with a digit;
* `Text.mem_toString_int`, `Text.mem_intercalate` — the characters of a number,
  and those of names with a separator between.
-/
import Mathlib.Data.List.Basic
import ProtoPhp.Proofs.Namespace.Parsing

namespace ProtoPhp.Text

/-- What holds of all characters of a text is decided along the text, not along all characters. -/
instance (priority := high) decidableForallMem (p : Char → Prop) [DecidablePred p] (cs : List Char) :
    Decidable (∀ c ∈ cs, p c) := List.decidableBAll p cs

/-- Letters, digits and underscores, of which the first is no digit. -/
def isIdentifier (name : String) : Bool :=
  name.toList.all (fun c => c.isAlphanum || c == '_') && name.toList.head?.any (!·.isDigit)

theorem ne_empty_of_isIdentifier {name : String} (h : isIdentifier name = true) : name ≠ "" := by
  rintro rfl
  cases h

theorem not_mem_of_isIdentifier {name : String} (h : isIdentifier name = true) {c : Char}
    (hc : (c.isAlphanum || c == '_') = false) : c ∉ name.toList := by
  intro hmem
  rw [isIdentifier, Bool.and_eq_true, List.all_eq_true] at h
  rw [h.1 c hmem] at hc
  cases hc

theorem isPlain_of_isIdentifier {name : String} (h : isIdentifier name = true) :
    Namespace.IsPlain name :=
  ⟨ne_empty_of_isIdentifier h, not_mem_of_isIdentifier h rfl, not_mem_of_isIdentifier h rfl⟩

/-- A letter, a digit or an underscore. -/
def isWordChar (c : Char) : Bool := c.isAlphanum || c == '_'

theorem isWhitespace_of_isWordChar {c : Char} (h : isWordChar c = true) : c.isWhitespace = false := by
  by_contra hne
  rw [Bool.not_eq_false, Char.isWhitespace] at hne
  simp only [Bool.or_eq_true, decide_eq_true_eq] at hne
  rcases hne with ((rfl | rfl) | rfl) | rfl <;> cases h

/-- Letters, digits and underscores, at least one. -/
def IsWord (name : String) : Prop := name ≠ "" ∧ ∀ c ∈ name.toList, isWordChar c = true

instance (name : String) : Decidable (IsWord name) :=
  inferInstanceAs (Decidable (name ≠ "" ∧ ∀ c ∈ name.toList, isWordChar c = true))

theorem isWord_of_isIdentifier {name : String} (h : isIdentifier name = true) : IsWord name := by
  refine ⟨ne_empty_of_isIdentifier h, ?_⟩
  rw [isIdentifier, Bool.and_eq_true, List.all_eq_true] at h
  exact h.1

theorem IsWord.not_mem {name : String} (h : IsWord name) {c : Char} (hc : isWordChar c = false) :
    c ∉ name.toList := by
  intro hmem
  rw [h.2 c hmem] at hc
  cases hc

theorem IsWord.isPlain {name : String} (h : IsWord name) : Namespace.IsPlain name :=
  ⟨h.1, h.not_mem rfl, h.not_mem rfl⟩

theorem isWordChar_of_mem_repr {n : Nat} {c : Char} (h : c ∈ n.repr.toList) :
    isWordChar c = true := by
  rw [Nat.toList_repr] at h
  have hdigit := Nat.isDigit_of_mem_toDigits (by decide) (by decide) h
  rw [isWordChar, Char.isAlphanum, hdigit, Bool.or_true, Bool.true_or]

/-- A number in decimal has digits, and maybe a sign. -/
theorem mem_toString_int {n : Int} {c : Char} (h : c ∈ (toString n).toList) :
    isWordChar c = true ∨ c = '-' := by
  change c ∈ n.repr.toList at h
  cases n with
  | ofNat n => exact .inl (isWordChar_of_mem_repr h)
  | negSucc n =>
    rcases List.mem_append.mp (String.toList_append ▸ h) with h | h
    · exact .inr (by simpa using h)
    · exact .inl (isWordChar_of_mem_repr h)

theorem mem_intercalate {sep : String} {names : List String} {c : Char}
    (h : c ∈ (sep.intercalate names).toList) : c ∈ sep.toList ∨ ∃ n ∈ names, c ∈ n.toList := by
  induction names with
  | nil => exact absurd h (by simp)
  | cons name rest ih =>
    by_cases hrest : rest = []
    · subst hrest
      rw [String.intercalate_singleton] at h
      exact .inr ⟨name, List.mem_cons_self, h⟩
    · rw [String.intercalate_cons_of_ne_nil hrest, String.toList_append, String.toList_append,
        List.mem_append, List.mem_append] at h
      rcases h with (h | h) | h
      · exact .inr ⟨name, List.mem_cons_self, h⟩
      · exact .inl h
      · exact (ih h).imp_right fun ⟨n, hn, hc⟩ => ⟨n, List.mem_cons_of_mem _ hn, hc⟩

theorem mem_intercalate_of_mem {sep : String} {names : List String} {name : String}
    (hname : name ∈ names) {c : Char} (hc : c ∈ name.toList) :
    c ∈ (sep.intercalate names).toList := by
  obtain ⟨before, after, rfl⟩ := List.append_of_mem hname
  have hafter : c ∈ (sep.intercalate (name :: after)).toList := by
    by_cases h : after = []
    · rwa [h, String.intercalate_singleton]
    · rw [String.intercalate_cons_of_ne_nil h, String.toList_append, String.toList_append]
      exact List.mem_append_left _ (List.mem_append_left _ hc)
  by_cases h : before = []
  · rwa [h, List.nil_append]
  · rw [String.intercalate_append_of_ne_nil h (List.cons_ne_nil _ _), String.toList_append]
    exact List.mem_append_right _ hafter

/-- What is written with separators starts like its first part. -/
theorem head?_intercalate (sep : String) {first : String} (h : first ≠ "") (rest : List String) :
    (sep.intercalate (first :: rest)).toList.head? = first.toList.head? := by
  have hchars : first.toList ≠ [] := by simpa using h
  by_cases hrest : rest = []
  · rw [hrest, String.intercalate_singleton]
  · rw [String.intercalate_cons_of_ne_nil hrest, String.toList_append, String.toList_append,
      List.append_assoc, List.head?_append_of_ne_nil _ hchars]

theorem getLast?_intercalate (sep : String) (front : List String) {last : String} (h : last ≠ "") :
    (sep.intercalate (front ++ [last])).toList.getLast? = last.toList.getLast? := by
  have hchars : last.toList ≠ [] := by simpa using h
  by_cases hfront : front = []
  · rw [hfront, List.nil_append, String.intercalate_singleton]
  · rw [String.intercalate_append_of_ne_nil hfront (List.cons_ne_nil _ _),
      String.intercalate_singleton, String.toList_append, List.getLast?_append_of_ne_nil _ hchars]

theorem IsWord.head? {name : String} (h : IsWord name) :
    ∃ c, name.toList.head? = some c ∧ isWordChar c = true := by
  have hchars : name.toList ≠ [] := by simpa using h.1
  exact ⟨_, List.head?_eq_some_head hchars, h.2 _ (List.head_mem hchars)⟩

theorem IsWord.getLast? {name : String} (h : IsWord name) :
    ∃ c, name.toList.getLast? = some c ∧ isWordChar c = true := by
  have hchars : name.toList ≠ [] := by simpa using h.1
  exact ⟨_, List.getLast?_eq_some_getLast hchars, h.2 _ (List.getLast_mem hchars)⟩

end ProtoPhp.Text
