/-
The pieces of a list that is cut.

A list that is cut wherever a test holds falls into pieces, on none of which the
test holds anywhere.

* `Text.mem_of_mem_splitOnP` — what stands in a piece;
* `Text.flatten_splitOnP` — what stands in all pieces together.
-/
import Mathlib.Data.List.Basic

namespace ProtoPhp.Text

/-- What stands in a piece of a list stands in the list, and the list is not cut there. -/
theorem mem_of_mem_splitOnP {α : Type} {p : α → Bool} {xs l : List α}
    (h : l ∈ xs.splitOnP p) : ∀ x ∈ l, x ∈ xs ∧ p x = false := by
  induction xs generalizing l with
  | nil =>
    rw [List.splitOnP_nil, List.mem_singleton] at h
    subst h
    exact nofun
  | cons x xs ih =>
    have hlater : ∀ l ∈ xs.splitOnP p, ∀ y ∈ l, y ∈ x :: xs ∧ p y = false := fun l hl y hy =>
      (ih hl y hy).imp_left (List.mem_cons_of_mem x)
    rw [List.splitOnP_cons_eq_if_modifyHead] at h
    by_cases hx : p x = true
    · rw [if_pos hx, List.mem_cons] at h
      rcases h with rfl | h
      · exact nofun
      · exact hlater l h
    · rw [if_neg hx] at h
      -- The character joins the first piece of what follows it.
      cases hsplit : xs.splitOnP p with
      | nil => exact absurd hsplit (List.splitOnP_ne_nil p xs)
      | cons first rest =>
        rw [hsplit] at hlater
        rw [hsplit, List.modifyHead_cons, List.mem_cons] at h
        rcases h with rfl | h
        · intro y hy
          rcases List.mem_cons.mp hy with rfl | hy
          · exact ⟨List.mem_cons_self, Bool.eq_false_iff.mpr hx⟩
          · exact hlater first List.mem_cons_self y hy
        · exact hlater l (List.mem_cons_of_mem _ h)

/-- The pieces of a list are free of what the list is cut at. -/
theorem eq_false_of_mem_splitOnP {α : Type} {p : α → Bool} {xs l : List α}
    (h : l ∈ xs.splitOnP p) : ∀ x ∈ l, p x = false :=
  fun x hx => (mem_of_mem_splitOnP h x hx).2

/-- The pieces of a list hold what is not cut at. -/
theorem flatten_splitOnP {α : Type} (p : α → Bool) (xs : List α) :
    (xs.splitOnP p).flatten = xs.filter fun x => !p x := by
  induction xs with
  | nil => rfl
  | cons x xs ih =>
    rw [List.splitOnP_cons_eq_if_modifyHead, List.filter_cons, ← ih]
    by_cases hx : p x = true
    · simp [hx]
    · cases hsplit : xs.splitOnP p with
      | nil => exact absurd hsplit (List.splitOnP_ne_nil p xs)
      | cons first rest => simp [hx]

end ProtoPhp.Text
