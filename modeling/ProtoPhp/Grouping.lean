/-
Stable grouping.

A list is cut into groups of equal keys.  Groups come in the order in which
their keys first appear, and a group keeps the order of its members.

* `Grouping.nodup_keys_grouped` — no key has two groups;
* `Grouping.lookup_grouped` — the group of a key holds exactly the members with that key, in order.
-/
namespace ProtoPhp.Grouping

/-- Adds a member at the end of the group of its key, behind all groups if there is none yet. -/
def add {κ α : Type} [BEq κ] (groups : List (κ × List α)) (key : κ) (x : α) : List (κ × List α) :=
  match groups with
  | [] => [(key, [x])]
  | (k, xs) :: rest => if k == key then (k, xs ++ [x]) :: rest else (k, xs) :: add rest key x

/-- The groups of a list. -/
def grouped {κ α : Type} [BEq κ] (key : α → κ) (xs : List α) : List (κ × List α) :=
  xs.foldl (fun groups x => add groups (key x) x) []

variable {κ α : Type} [BEq κ] [LawfulBEq κ]

theorem mem_keys_add (groups : List (κ × List α)) (key k : κ) (x : α) :
    k ∈ (add groups key x).map Prod.fst ↔ k ∈ groups.map Prod.fst ∨ k = key := by
  induction groups with
  | nil => simp [add]
  | cons g rest ih =>
    by_cases h : g.1 == key
    · have hk : g.1 = key := eq_of_beq h
      simp only [add, h, if_true, List.map_cons, List.mem_cons]
      constructor
      · rintro (rfl | hr)
        · exact .inl (.inl rfl)
        · exact .inl (.inr hr)
      · rintro ((rfl | hr) | rfl)
        · exact .inl rfl
        · exact .inr hr
        · exact .inl hk.symm
    · simp only [add, h, if_false, List.map_cons, List.mem_cons, ih, Bool.false_eq_true]
      exact or_assoc.symm

theorem nodup_keys_add {groups : List (κ × List α)} (h : (groups.map Prod.fst).Nodup) (key : κ)
    (x : α) : ((add groups key x).map Prod.fst).Nodup := by
  induction groups with
  | nil => simp [add]
  | cons g rest ih =>
    rw [List.map_cons, List.nodup_cons] at h
    by_cases hk : g.1 == key
    · simpa [add, hk] using h
    · simp only [add, hk, if_false, List.map_cons, List.nodup_cons, mem_keys_add,
        Bool.false_eq_true]
      refine ⟨?_, ih h.2⟩
      rintro (hm | he)
      · exact h.1 hm
      · exact hk (beq_iff_eq.mpr he)

/-- No key has two groups. -/
theorem nodup_keys_grouped (key : α → κ) (xs : List α) :
    ((grouped key xs).map Prod.fst).Nodup := by
  -- Adding keeps keys apart, from whatever groups the fold starts.
  have step : ∀ (xs : List α) (groups : List (κ × List α)), (groups.map Prod.fst).Nodup →
      ((xs.foldl (fun groups x => add groups (key x) x) groups).map Prod.fst).Nodup := by
    intro xs
    induction xs with
    | nil => exact fun _ h => h
    | cons x xs ih => exact fun groups h => ih _ (nodup_keys_add h (key x) x)
  exact step xs [] List.nodup_nil

theorem lookup_add (groups : List (κ × List α)) (key k : κ) (x : α) :
    (add groups key x).lookup k =
      if k == key then some ((groups.lookup k).getD [] ++ [x]) else groups.lookup k := by
  induction groups with
  | nil => by_cases h : k == key <;> simp [add, List.lookup_cons, h]
  | cons g rest ih =>
    obtain ⟨g, ys⟩ := g
    by_cases hg : g == key
    · have : g = key := eq_of_beq hg
      subst this
      by_cases hk : k == g <;> simp [add, List.lookup_cons, hk]
    · by_cases hk : k == g
      · have : k = g := eq_of_beq hk
        subst this
        simp [add, hg]
      · simp only [add, hg, List.lookup_cons, hk, ih, if_false, Bool.false_eq_true]

/-- The group of a key holds exactly the members with that key, in order. -/
theorem lookup_grouped (key : α → κ) (xs : List α) (k : κ) :
    ((grouped key xs).lookup k).getD [] = xs.filter fun x => key x == k := by
  -- The fold puts the members with key `k` behind what the group of `k` holds already.
  have step : ∀ (xs : List α) (groups : List (κ × List α)),
      ((xs.foldl (fun groups x => add groups (key x) x) groups).lookup k).getD [] =
        (groups.lookup k).getD [] ++ xs.filter fun x => key x == k := by
    intro xs
    induction xs with
    | nil => simp
    | cons x xs ih =>
      intro groups
      rw [List.foldl_cons, ih, lookup_add]
      by_cases h : k == key x
      · have hx : (key x == k) = true := by rw [eq_of_beq h]; exact beq_self_eq_true _
        simp [h, hx]
      · have hx : (key x == k) = false := by
          rw [Bool.eq_false_iff]
          intro hx
          exact h (beq_iff_eq.mpr (eq_of_beq hx).symm)
        simp [h, hx]
  simpa [grouped] using step xs []

end ProtoPhp.Grouping
