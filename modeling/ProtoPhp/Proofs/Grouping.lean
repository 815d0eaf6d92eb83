/-
Groups by their keys.

A list is grouped by adding its members one by one, and so its keys come in the
order in which they are first seen.  With the group of each key known, the list
of groups is known as a whole.

* `Grouping.foldl_keep` — keeping what is new is removing repetitions;
* `Grouping.grouped_eq` — the groups, from the list of the distinct keys;
* `Grouping.flatMap_filter_perm` — no member is lost or repeated by grouping;
* `Grouping.find?_of_nodup`, `Grouping.filter_of_nodup` — distinct keys find their members.
-/
import Mathlib.Data.List.Basic
import Mathlib.Data.List.Induction
import ProtoPhp.Grouping

namespace ProtoPhp.Grouping

/-- Putting each member at the end unless it is there already removes repetitions. -/
theorem foldl_keep {α : Type} [BEq α] [LawfulBEq α] [DecidableEq α] (xs : List α) :
    xs.foldl (fun seen x => if x ∈ seen then seen else seen ++ [x]) [] = xs.eraseDups := by
  induction xs using List.reverseRecOn with
  | nil => rfl
  | append_singleton xs x ih =>
    rw [List.foldl_append, ih, List.foldl_cons, List.foldl_nil, List.eraseDups_append]
    by_cases h : x ∈ xs <;> simp [List.mem_eraseDups, List.removeAll, List.eraseDups_cons, h]

variable {κ α : Type} [BEq κ] [LawfulBEq κ]

/-- Groups with distinct keys are known from their keys and the group of each key. -/
theorem eq_map_lookup {groups : List (κ × List α)} (h : (groups.map Prod.fst).Nodup) :
    groups = (groups.map Prod.fst).map fun k => (k, (groups.lookup k).getD []) := by
  induction groups with
  | nil => rfl
  | cons g rest ih =>
    obtain ⟨k, xs⟩ := g
    rw [List.map_cons, List.nodup_cons] at h
    rw [List.map_cons, List.map_cons, List.lookup_cons_self, Option.getD_some]
    congr 1
    refine (ih h.2).trans (List.map_congr_left fun k' hk' => ?_)
    have hne : (k' == k) = false := by
      rw [beq_eq_false_iff_ne]
      rintro rfl
      exact h.1 hk'
    rw [List.lookup_cons, hne]

/-- Nothing is removed from a list without repetitions. -/
theorem eraseDups_of_nodup {ks : List κ} (h : ks.Nodup) : ks.eraseDups = ks := by
  induction ks with
  | nil => rfl
  | cons k ks ih =>
    rw [List.nodup_cons] at h
    have hkeep : ks.filter (fun b => !b == k) = ks := by
      rw [List.filter_eq_self]
      rintro b hb
      rw [Bool.not_eq_true', beq_eq_false_iff_ne]
      rintro rfl
      exact h.1 hb
    rw [List.eraseDups_cons, hkeep, ih h.2]

/-- The members with any of some distinct keys, key after key, are the members of the list in another
order, if these keys are all there are. -/
theorem flatMap_filter_perm (key : α → κ) {ks : List κ} (hks : ks.Nodup) {xs : List α}
    (hxs : ∀ x ∈ xs, key x ∈ ks) : (ks.flatMap fun k => xs.filter fun x => key x == k).Perm xs := by
  induction ks generalizing xs with
  | nil =>
    rw [List.eq_nil_iff_forall_not_mem.mpr fun x hx => List.not_mem_nil (hxs x hx)]
    exact .nil
  | cons k ks ih =>
    rw [List.nodup_cons] at hks
    -- The later keys select from what the first one leaves.
    have hlater : ks.flatMap (fun k' => xs.filter fun x => key x == k') =
        ks.flatMap fun k' => (xs.filter fun x => !key x == k).filter fun x => key x == k' := by
      refine List.flatMap_congr fun k' hk' => ?_
      rw [List.filter_filter]
      refine List.filter_congr fun x _ => ?_
      by_cases hx : key x = k'
      · have hne : k' ≠ k := by
          rintro rfl
          exact hks.1 hk'
        simp [hx, hne]
      · simp [hx]
    rw [List.flatMap_cons, hlater]
    refine ((ih hks.2 ?_).append_left _).trans (List.filter_append_perm _ xs)
    intro x hx
    obtain ⟨hx, hne⟩ := List.mem_filter.mp hx
    refine (List.mem_cons.mp (hxs x hx)).resolve_left ?_
    simpa using hne

/-- If no two members share a key, every group has one member. -/
theorem flatMap_filter_of_nodup (key : α → κ) {xs : List α} (h : (xs.map key).Nodup) :
    ((xs.map key).flatMap fun k => xs.filter fun x => key x == k) = xs := by
  induction xs with
  | nil => rfl
  | cons x xs ih =>
    rw [List.map_cons, List.nodup_cons] at h
    have hother : ∀ y ∈ xs, key y ≠ key x := fun y hy e => h.1 (e ▸ List.mem_map_of_mem hy)
    have hself : xs.filter (fun y => key y == key x) = [] := by
      rw [List.filter_eq_nil_iff]
      intro y hy
      simpa using hother y hy
    have hrest : (xs.map key).flatMap (fun k => (x :: xs).filter fun y => key y == k) =
        (xs.map key).flatMap fun k => xs.filter fun y => key y == k := by
      refine List.flatMap_congr fun k hk => ?_
      obtain ⟨y, hy, rfl⟩ := List.mem_map.mp hk
      rw [List.filter_cons_of_neg]
      simpa using (hother y hy).symm
    rw [List.map_cons, List.flatMap_cons, hrest, ih h.2, List.filter_cons_of_pos (by simp), hself]
    rfl

/-- If no two members share a key, each of them is the first one with its key. -/
theorem find?_of_nodup {key : α → κ} {xs : List α} (h : (xs.map key).Nodup) {x : α}
    (hx : x ∈ xs) : xs.find? (fun y => key y == key x) = some x := by
  induction xs with
  | nil => cases hx
  | cons y ys ih =>
    rw [List.map_cons, List.nodup_cons] at h
    rcases List.mem_cons.mp hx with rfl | hx
    · rw [List.find?_cons_of_pos (by simp)]
    · have hne : key y ≠ key x := fun e => h.1 (e ▸ List.mem_map_of_mem hx)
      rw [List.find?_cons_of_neg (by simpa using hne)]
      exact ih h.2 hx

/-- If no two members share a key, each of them is the only one with its key. -/
theorem filter_of_nodup {key : α → κ} {xs : List α} (h : (xs.map key).Nodup) {x : α}
    (hx : x ∈ xs) : xs.filter (fun y => key y == key x) = [x] := by
  induction xs with
  | nil => cases hx
  | cons y ys ih =>
    rw [List.map_cons, List.nodup_cons] at h
    rcases List.mem_cons.mp hx with rfl | hx
    · rw [List.filter_cons_of_pos (by simp), List.filter_eq_nil_iff.mpr]
      intro z hz he
      exact h.1 (beq_iff_eq.mp he ▸ List.mem_map_of_mem hz)
    · have hne : key y ≠ key x := fun e => h.1 (e ▸ List.mem_map_of_mem hx)
      rw [List.filter_cons_of_neg (by simpa using hne)]
      exact ih h.2 hx

variable [DecidableEq κ]

theorem keys_add (groups : List (κ × List α)) (key : κ) (x : α) :
    (add groups key x).map Prod.fst =
      if key ∈ groups.map Prod.fst then groups.map Prod.fst else groups.map Prod.fst ++ [key] := by
  induction groups with
  | nil => rfl
  | cons g rest ih =>
    rw [add]
    by_cases h : g.1 = key
    · simp [h]
    · have hb : (g.1 == key) = false := by simp [h]
      rw [if_neg (by simp [hb]), List.map_cons, ih, List.map_cons]
      by_cases hr : key ∈ rest.map Prod.fst
      · rw [if_pos hr, if_pos (List.mem_cons_of_mem _ hr)]
      · rw [if_neg hr, if_neg, List.cons_append]
        rw [List.mem_cons]
        rintro (he | hm)
        · exact h he.symm
        · exact hr hm

/-- The keys of the groups are the distinct keys in the order in which they are first seen. -/
theorem keys_grouped (key : α → κ) (xs : List α) :
    (grouped key xs).map Prod.fst = (xs.map key).eraseDups := by
  rw [← foldl_keep, List.foldl_map, grouped]
  -- Both folds go over the same list, and a step keeps their keys alike.
  exact (List.foldl_hom (List.map Prod.fst) (by simp only [keys_add, implies_true])).symm

theorem nodup_eraseDups_map (key : α → κ) (xs : List α) : (xs.map key).eraseDups.Nodup := by
  rw [← keys_grouped]
  exact nodup_keys_grouped key xs

/-- The groups of a list: each distinct key with the members that have it, in order. -/
theorem grouped_eq (key : α → κ) (xs : List α) :
    grouped key xs = (xs.map key).eraseDups.map fun k => (k, xs.filter fun x => key x == k) := by
  rw [eq_map_lookup (nodup_keys_grouped key xs), keys_grouped]
  simp only [lookup_grouped]

end ProtoPhp.Grouping
