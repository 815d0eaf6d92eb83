/-
The heads of dotted names.

A dot splits the heads of a name into those of what stands before it and those
that reach beyond it (`headsOf_append_dot`).  So the heads of a dotted path are
the dotted forms of its beginnings.

* `Text.mem_dottedHeads` — a head is the name itself or ends right before a dot;
* `Text.mem_dottedHeads_intercalate`, `Text.mem_dottedHeads_qualify` — the heads
  of a path, and those of a path inside a scope.
-/
import ProtoPhp.Text.Dotted

namespace ProtoPhp.Text

/-- The heads of what stands before a dot, then those that reach beyond it. -/
theorem headsOf_append_dot (as bs : List Char) :
    headsOf (as ++ '.' :: bs) = headsOf as ++ (headsOf bs).map (as ++ '.' :: ·) := by
  induction as with
  | nil => simp [headsOf]
  | cons c as ih =>
    rw [List.cons_append, headsOf, ih, headsOf]
    by_cases hc : c = '.' <;> simp [hc]

theorem headsOf_of_no_dot {cs : List Char} (h : '.' ∉ cs) : headsOf cs = [cs] := by
  induction cs with
  | nil => rfl
  | cons c cs ih =>
    have hc : c ≠ '.' := fun e => h (e ▸ List.mem_cons_self)
    rw [headsOf, ih fun hm => h (List.mem_cons_of_mem _ hm)]
    simp [hc]

theorem mem_headsOf {cs head : List Char} :
    head ∈ headsOf cs ↔ head = cs ∨ ∃ rest, cs = head ++ '.' :: rest := by
  constructor
  · intro h
    induction cs generalizing head with
    | nil =>
      rw [headsOf, List.mem_singleton] at h
      exact .inl h
    | cons c cs ih =>
      -- Either the head stops before a leading dot, or it takes the first character along.
      have hcases : (c = '.' ∧ head = []) ∨ ∃ t ∈ headsOf cs, c :: t = head := by
        rw [headsOf] at h
        by_cases hc : c = '.'
        · simpa [hc] using h
        · simpa [hc] using h
      rcases hcases with ⟨rfl, rfl⟩ | ⟨t, ht, rfl⟩
      · exact .inr ⟨cs, rfl⟩
      · rcases ih ht with rfl | ⟨rest, rfl⟩
        · exact .inl rfl
        · exact .inr ⟨rest, rfl⟩
  · -- A name is its own last head.
    have self : ∀ cs : List Char, cs ∈ headsOf cs := by
      intro cs
      induction cs with
      | nil => exact List.mem_singleton_self _
      | cons c cs ih =>
        rw [headsOf]
        by_cases hc : c = '.' <;> simp [hc, ih]
    rintro (rfl | ⟨rest, rfl⟩)
    · exact self head
    · rw [headsOf_append_dot]
      exact List.mem_append_left _ (self head)

/-- A head of a name is the name itself or ends right before one of its dots. -/
theorem mem_dottedHeads {name head : String} :
    head ∈ dottedHeads name ↔ head = name ∨ ∃ rest, name = head ++ "." ++ rest := by
  rw [dottedHeads, List.mem_map]
  constructor
  · rintro ⟨cs, hcs, rfl⟩
    rcases mem_headsOf.mp hcs with rfl | ⟨rest, h⟩
    · exact .inl String.ofList_toList
    · refine .inr ⟨String.ofList rest, String.ext ?_⟩
      simpa using h
  · intro h
    refine ⟨head.toList, mem_headsOf.mpr ?_, String.ofList_toList⟩
    rcases h with rfl | ⟨rest, rfl⟩
    · exact .inl rfl
    · exact .inr ⟨rest.toList, by simp⟩

theorem dottedHeads_append_dot (a b : String) :
    dottedHeads (a ++ "." ++ b) = dottedHeads a ++ (dottedHeads b).map (a ++ "." ++ ·) := by
  have h : (a ++ "." ++ b).toList = a.toList ++ '.' :: b.toList := by simp
  rw [dottedHeads, h, headsOf_append_dot, List.map_append, dottedHeads, dottedHeads,
    List.map_map, List.map_map]
  congr 1
  refine List.map_congr_left fun cs _ => String.ext ?_
  simp

theorem dottedHeads_of_no_dot {name : String} (h : '.' ∉ name.toList) :
    dottedHeads name = [name] := by
  rw [dottedHeads, headsOf_of_no_dot h, List.map_singleton, String.ofList_toList]

/-- The heads of a dotted path of names without dots are the dotted forms of its beginnings. -/
theorem mem_dottedHeads_intercalate {path : List String} (hdot : ∀ name ∈ path, '.' ∉ name.toList)
    (hne : path ≠ []) {head : String} (h : head ∈ dottedHeads (".".intercalate path)) :
    ∃ k, 0 < k ∧ k ≤ path.length ∧ head = ".".intercalate (path.take k) := by
  induction path generalizing head with
  | nil => exact absurd rfl hne
  | cons name rest ih =>
    have hname := hdot name List.mem_cons_self
    cases rest with
    | nil =>
      rw [String.intercalate_singleton, dottedHeads_of_no_dot hname, List.mem_singleton] at h
      exact ⟨1, Nat.one_pos, Nat.le_refl 1, by simpa using h⟩
    | cons next rest =>
      rw [String.intercalate_cons_cons, dottedHeads_append_dot, dottedHeads_of_no_dot hname,
        List.singleton_append, List.mem_cons, List.mem_map] at h
      rcases h with rfl | ⟨t, ht, rfl⟩
      · exact ⟨1, Nat.one_pos, by simp, by simp⟩
      · obtain ⟨k, hk, hle, rfl⟩ :=
          ih (fun n hn => hdot n (List.mem_cons_of_mem _ hn)) (List.cons_ne_nil _ _) ht
        obtain ⟨j, rfl⟩ : ∃ j, k = j + 1 := ⟨k - 1, by omega⟩
        refine ⟨j + 2, Nat.succ_pos _, Nat.succ_le_succ hle, ?_⟩
        rw [List.take_succ_cons, List.take_succ_cons, List.take_succ_cons,
          String.intercalate_cons_cons]

@[simp] theorem qualify_empty (name : String) : qualify "" name = name := rfl

theorem qualify_of_ne_empty {scope : String} (h : scope ≠ "") (name : String) :
    qualify scope name = scope ++ "." ++ name := by
  rw [qualify, if_neg]
  simpa using h

/-- A head of a path inside a scope either lies in the scope or is a beginning of the path there. -/
theorem mem_dottedHeads_qualify {scope : String} {path : List String}
    (hdot : ∀ name ∈ path, '.' ∉ name.toList) (hne : path ≠ []) {head : String}
    (h : head ∈ dottedHeads (qualify scope (".".intercalate path))) :
    head ∈ dottedHeads scope ∨
      ∃ k, 0 < k ∧ k ≤ path.length ∧ head = qualify scope (".".intercalate (path.take k)) := by
  by_cases hs : scope = ""
  · subst hs
    exact .inr (mem_dottedHeads_intercalate hdot hne h)
  · rw [qualify_of_ne_empty hs, dottedHeads_append_dot, List.mem_append, List.mem_map] at h
    rcases h with h | ⟨t, ht, rfl⟩
    · exact .inl h
    · obtain ⟨k, hk, hle, rfl⟩ := mem_dottedHeads_intercalate hdot hne ht
      exact .inr ⟨k, hk, hle, (qualify_of_ne_empty hs _).symm⟩

theorem length_le_of_mem_dottedHeads {name head : String} (h : head ∈ dottedHeads name) :
    head.length ≤ name.length := by
  rcases mem_dottedHeads.mp h with rfl | ⟨rest, rfl⟩
  · exact Nat.le_refl _
  · simp only [String.length_append]
    omega

end ProtoPhp.Text
