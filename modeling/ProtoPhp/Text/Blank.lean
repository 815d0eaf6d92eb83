/-
Blank characters and trimming.

A character is blank when Unicode gives it the property White_Space.  Texts
that a user writes by hand (generator parameters, boolean defaults) are trimmed
of blanks at both ends before they are read.

* `Text.trim_eq_empty_iff` — a text trims to nothing iff it is all blank.
-/
namespace ProtoPhp.Text

/-- The first and last code points of the ranges with the Unicode property White_Space. -/
def blankRanges : List (Nat × Nat) :=
  [(0x09, 0x0D), (0x20, 0x20), (0x85, 0x85), (0xA0, 0xA0), (0x1680, 0x1680), (0x2000, 0x200A),
   (0x2028, 0x2029), (0x202F, 0x202F), (0x205F, 0x205F), (0x3000, 0x3000)]

/-- Has the Unicode property White_Space. -/
def isBlank (c : Char) : Bool :=
  blankRanges.any fun r => r.1 ≤ c.toNat && c.toNat ≤ r.2

/-- Drops the blanks at both ends of a list of characters. -/
def trimChars (cs : List Char) : List Char :=
  ((cs.dropWhile isBlank).reverse.dropWhile isBlank).reverse

/-- Drops the blanks at both ends of a text. -/
def trim (s : String) : String :=
  String.ofList (trimChars s.toList)

theorem dropWhile_isBlank_eq_nil_iff {cs : List Char} :
    cs.dropWhile isBlank = [] ↔ ∀ c ∈ cs, isBlank c := by
  induction cs with
  | nil => simp
  | cons c cs ih => by_cases h : isBlank c <;> simp [h, ih]

theorem trimChars_eq_nil_iff {cs : List Char} : trimChars cs = [] ↔ ∀ c ∈ cs, isBlank c := by
  rw [trimChars, List.reverse_eq_nil_iff, dropWhile_isBlank_eq_nil_iff]
  constructor
  · intro h
    rcases hd : cs.dropWhile isBlank with _ | ⟨d, ds⟩
    · exact dropWhile_isBlank_eq_nil_iff.mp hd
    · -- What `dropWhile` leaves starts with a character that is not blank.
      have hhead : isBlank d := h d (by simp [hd])
      have := List.head_dropWhile_not isBlank (l := cs) (by simp [hd])
      simp [hd, hhead] at this
  · intro h c hc
    exact h c (List.dropWhile_subset _ (List.mem_reverse.mp hc))

/-- A text trims to nothing iff all its characters are blank. -/
theorem trim_eq_empty_iff {s : String} : trim s = "" ↔ ∀ c ∈ s.toList, isBlank c := by
  rw [trim, ← trimChars_eq_nil_iff, ← String.ofList_nil, String.ofList_inj]

end ProtoPhp.Text
