/-
The characters of Pascal-case names.

The form of a name is made word by word.  It can as well be told character by
character, from what stands right before each of them in the name.

* `Text.isWordChar_of_mem_pascalCase` — a word stays one apart from being empty;
* `Text.map_toLower_pascalChars` — without regard to case, a name only loses its
  underscores;
* `Text.pascalChars_eq_letters` — the form of a name, character by character;
* `Text.pascalCase_letters` — what follows from this for the forms of all names.
-/
import Mathlib
import ProtoPhp.Proofs.Command.Path
import ProtoPhp.Proofs.Text.Identifier
import ProtoPhp.Text.PascalCase

namespace ProtoPhp.Text

theorem isWordChar_toUpper {c : Char} (h : isWordChar c = true) : isWordChar c.toUpper = true := by
  by_cases hlower : c.isLower = true
  · have halpha : c.toUpper.isAlpha = true := by
      rw [Char.isAlpha_toUpper_eq_isAlpha, Char.isAlpha, hlower, Bool.or_true]
    rw [isWordChar, Char.isAlphanum, halpha]
    rfl
  · rwa [Char.toUpper_eq_of_not_isLower hlower]

/-- The Pascal-case form of a word has the characters of a word. -/
theorem isWordChar_of_mem_pascalCase {name : String} (h : IsWord name) {c : Char}
    (hc : c ∈ (pascalCase name).toList) : isWordChar c = true := by
  rw [toList_pascalCase, pascalChars, List.mem_flatMap] at hc
  obtain ⟨word, hword, hc⟩ := hc
  rw [List.splitOn_eq_splitOnP] at hword
  have hin : ∀ d ∈ word, isWordChar d = true := fun d hd =>
    h.2 d (mem_of_mem_splitOnP hword d hd).1
  cases word with
  | nil => cases hc
  | cons d ds =>
    rcases List.mem_cons.mp hc with rfl | hc
    · exact isWordChar_toUpper (hin d List.mem_cons_self)
    · exact hin c (List.mem_cons_of_mem _ hc)

theorem map_toLower_capitalize (cs : List Char) :
    (capitalize cs).map Char.toLower = cs.map Char.toLower := by
  cases cs with
  | nil => rfl
  | cons c cs => rw [capitalize, List.map_cons, List.map_cons, Char.toLower_toUpper_eq_toLower]

theorem map_toLower_pascalChars (cs : List Char) :
    (pascalChars cs).map Char.toLower = (cs.filter (· != '_')).map Char.toLower := by
  have hwords : (cs.splitOn '_').flatMap (fun word => (capitalize word).map Char.toLower) =
      (cs.splitOn '_').flatMap (·.map Char.toLower) :=
    List.flatMap_congr fun word _ => map_toLower_capitalize word
  rw [pascalChars, List.map_flatMap, hwords, List.flatMap_def, ← List.map_flatten,
    List.splitOn_eq_splitOnP, flatten_splitOnP]
  rfl

/-- Nothing or an underscore stands before the first character of a word. -/
def startsWord (before : Option Char) : Bool := before.all (· == '_')

/-- A character as it shows in the form of a name, by what stands before it. -/
def letterAfter (before : Option Char) (c : Char) : Char :=
  if startsWord before then c.toUpper else c

/-- The characters of a name that are no underscores, each by what stands before it; `before` stands
before the first one. -/
def lettersAfter (before : Option Char) (cs : List Char) : List Char :=
  (((before :: cs.map some).zip cs).filter (·.2 != '_')).map fun p => letterAfter p.1 p.2

theorem lettersAfter_underscore (before : Option Char) (cs : List Char) :
    lettersAfter before ('_' :: cs) = lettersAfter (some '_') cs := by
  simp [lettersAfter]

theorem lettersAfter_cons (before : Option Char) {c : Char} (h : c ≠ '_') (cs : List Char) :
    lettersAfter before (c :: cs) = letterAfter before c :: lettersAfter (some c) cs := by
  simp [lettersAfter, h]

/-- The characters of a name are those of its words.  The first word may go on one that has started
before it. -/
theorem lettersAfter_of_splitOn {cs word : List Char} {words : List (List Char)}
    (h : cs.splitOn '_' = word :: words) (before : Option Char) :
    lettersAfter before cs =
      (if startsWord before then capitalize word else word) ++ words.flatMap capitalize := by
  rw [List.splitOn_eq_splitOnP] at h
  induction cs generalizing before word words with
  | nil =>
    obtain ⟨rfl, rfl⟩ := List.cons.inj h
    simp [lettersAfter, capitalize]
  | cons c cs ih =>
    rw [List.splitOnP_cons_eq_if_modifyHead] at h
    cases hsplit : cs.splitOnP (· == '_') with
    | nil => exact absurd hsplit (List.splitOnP_ne_nil _ cs)
    | cons next others =>
      rw [hsplit] at h
      by_cases hc : c = '_'
      · -- The underscore ends an empty word, and the next one starts behind it.
        subst hc
        obtain ⟨rfl, rfl⟩ := List.cons.inj h
        have hnext : startsWord (some '_') = true := rfl
        rw [lettersAfter_underscore, ih hsplit, if_pos hnext, capitalize, ite_self, List.nil_append,
          List.flatMap_cons]
      · rw [if_neg (by simpa using hc), List.modifyHead_cons] at h
        obtain ⟨rfl, rfl⟩ := List.cons.inj h
        have hinside : startsWord (some c) = false := by simpa [startsWord] using hc
        rw [lettersAfter_cons _ hc, ih hsplit, hinside, letterAfter]
        by_cases hbefore : startsWord before = true <;> simp [hbefore, capitalize]

/-- The form of a name, character by character. -/
theorem pascalChars_eq_letters (cs : List Char) : pascalChars cs = lettersAfter none cs := by
  cases hsplit : cs.splitOn '_' with
  | nil => exact absurd hsplit (List.splitOnP_ne_nil _ cs)
  | cons word words =>
    rw [lettersAfter_of_splitOn hsplit, pascalChars, hsplit]
    rfl

theorem pascalChars_append_underscore (as bs : List Char) :
    pascalChars (as ++ '_' :: bs) = pascalChars as ++ pascalChars bs := by
  rw [pascalChars, List.splitOn_append_cons_self, List.flatMap_append, pascalChars, pascalChars]

/-- Without underscores a name is one word. -/
theorem pascalChars_of_no_underscore {cs : List Char} (h : '_' ∉ cs) :
    pascalChars cs = capitalize cs := by
  rw [pascalChars, List.splitOn_eq_singleton h, List.flatMap_singleton]

theorem underscore_not_mem_pascalChars (cs : List Char) : '_' ∉ pascalChars cs := by
  have hupper : ∀ c : Char, c.toUpper = '_' → c = '_' := by
    intro c hc
    by_cases hlower : c.isLower = true
    · -- A letter in upper case is still a letter.
      have halpha : c.toUpper.isAlpha = true := by
        rw [Char.isAlpha_toUpper_eq_isAlpha, Char.isAlpha, hlower, Bool.or_true]
      rw [hc] at halpha
      cases halpha
    · rwa [Char.toUpper_eq_of_not_isLower hlower] at hc
  rw [pascalChars_eq_letters, lettersAfter, List.mem_map]
  rintro ⟨p, hp, hletter⟩
  have hne : p.2 ≠ '_' := by simpa using (List.mem_filter.mp hp).2
  rw [letterAfter] at hletter
  split at hletter
  · exact hne (hupper _ hletter)
  · exact hne hletter

/-- The form of a name starts with the first letter of a word. -/
theorem isLower_head?_pascalChars {cs : List Char} {c : Char}
    (h : (pascalChars cs).head? = some c) : c.isLower = false := by
  rw [pascalChars] at h
  -- Words without a character say nothing about the start.
  generalize cs.splitOn '_' = words at h
  induction words with
  | nil => cases h
  | cons word words ih =>
    rw [List.flatMap_cons] at h
    cases word with
    | nil => exact ih h
    | cons d ds =>
      obtain rfl := Option.some.inj h
      exact Char.isLower_toUpper_eq_false d

theorem capitalize_of_head? {cs : List Char} (h : ∀ c, cs.head? = some c → c.isLower = false) :
    capitalize cs = cs := by
  cases cs with
  | nil => rfl
  | cons c cs => rw [capitalize, Char.toUpper_eq_of_not_isLower (by simp [h c rfl])]

/-- The form of a name is the name without its underscores.  A character that is the first one or stands
right behind an underscore is put in ASCII upper case, and the others stay as they are.  So the form has
no underscore and no small ASCII letter at its start, an underscore between two names puts their forms
one behind the other, a form is its own form, and names with one form differ in underscores and in the
case of ASCII letters at most. -/
theorem pascalCase_letters :
    (∀ name : String, (pascalCase name).toList =
      (((none :: name.toList.map some).zip name.toList).filter (·.2 != '_')).map fun p =>
        if p.1 = none ∨ p.1 = some '_' then p.2.toUpper else p.2) ∧
    (∀ name : String, '_' ∉ (pascalCase name).toList) ∧
    (∀ name : String, ∀ c, (pascalCase name).toList.head? = some c → c.isLower = false) ∧
    (∀ a b : String, pascalCase (a ++ "_" ++ b) = pascalCase a ++ pascalCase b) ∧
    (∀ name : String, pascalCase (pascalCase name) = pascalCase name) ∧
    ∀ a b : String, pascalCase a = pascalCase b →
      (a.toList.filter (· != '_')).map Char.toLower =
        (b.toList.filter (· != '_')).map Char.toLower := by
  refine ⟨fun name => ?_, fun name => ?_, fun name c hc => ?_, fun a b => ?_, fun name => ?_,
    fun a b h => ?_⟩
  · rw [toList_pascalCase, pascalChars_eq_letters, lettersAfter]
    refine List.map_congr_left fun p _ => ?_
    obtain ⟨before, c⟩ := p
    cases before <;> simp [letterAfter, startsWord]
  · rw [toList_pascalCase]
    exact underscore_not_mem_pascalChars _
  · rw [toList_pascalCase] at hc
    exact isLower_head?_pascalChars hc
  · have hchars : (a ++ "_" ++ b).toList = a.toList ++ '_' :: b.toList := by simp
    apply String.ext
    rw [toList_pascalCase, hchars, pascalChars_append_underscore, String.toList_append,
      toList_pascalCase, toList_pascalCase]
  · apply String.ext
    rw [toList_pascalCase, toList_pascalCase,
      pascalChars_of_no_underscore (underscore_not_mem_pascalChars _)]
    exact capitalize_of_head? fun c hc => isLower_head?_pascalChars hc
  · rw [← map_toLower_pascalChars, ← map_toLower_pascalChars, ← toList_pascalCase, h,
      toList_pascalCase]

/-- Empty words leave nothing behind, and only ASCII letters have an upper case. -/
example : pascalCase "_HTTP__code_1é_é" = "HTTPCode1éé" := by decide

end ProtoPhp.Text
