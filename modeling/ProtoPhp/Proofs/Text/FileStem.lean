/-
The stems of schema names.

A schema name that ends in the name of a file has that name, without what
follows its last dot, for its stem.  Such a stem is a name itself: it is not
empty and has no slash.

* `Text.fileStem_of_endsInName` — the stem comes from the last name alone;
* `Text.fileStem_ne_empty`, `Text.no_slash_fileStem` — it is a name.
-/
import ProtoPhp.Proofs.Command.Path
import ProtoPhp.Text.FileStem

namespace ProtoPhp.Text

open Command.FileTree (namesOf lastName)

/-- The last name in a path is the name of a file. -/
def EndsInName (path : String) : Prop :=
  lastName path ≠ "" ∧ lastName path ≠ "." ∧ lastName path ≠ ".."

instance (path : String) : Decidable (EndsInName path) :=
  inferInstanceAs (Decidable (lastName path ≠ "" ∧ lastName path ≠ "." ∧ lastName path ≠ ".."))

/-- The stem of a name is the name itself or what stands before its last dot, if that is anything. -/
theorem stemOfName_eq_self_or (name : List Char) :
    stemOfName name = name ∨ stemOfName name ≠ [] ∧
      stemOfName name = (name.reverse.dropWhile (· != '.')).reverse.dropLast := by
  rw [stemOfName]
  split
  · exact .inl rfl
  · rename_i hne
    exact .inr ⟨hne, rfl⟩

theorem stemOfName_ne_nil (name : List Char) (h : name ≠ []) : stemOfName name ≠ [] := by
  rcases stemOfName_eq_self_or name with hself | ⟨hne, -⟩
  · rwa [hself]
  · exact hne

theorem stemOfName_subset (name : List Char) : stemOfName name ⊆ name := by
  rcases stemOfName_eq_self_or name with hself | ⟨-, hfront⟩
  · rw [hself]
    exact List.Subset.refl _
  · rw [hfront]
    intro x hx
    have hx := List.mem_reverse.mp (List.dropLast_subset _ hx)
    exact List.mem_reverse.mp (List.dropWhile_subset _ hx)

/-- The stem comes from the last name alone. -/
theorem fileStem_of_endsInName {path : String} (h : EndsInName path) :
    fileStem path = String.ofList (stemOfName (lastName path).toList) := by
  obtain ⟨hempty, hdot, hup⟩ := h
  have hcounts : (lastName path).toList ≠ [] ∧ (lastName path).toList ≠ ['.'] :=
    ⟨fun e => hempty (String.ext e), fun e => hdot (String.ext e)⟩
  have hlast : (components path.toList).getLast? = some (lastName path).toList := by
    rw [components, ← Command.FileTree.map_toList_namesOf,
      Command.FileTree.namesOf_eq_dropLast_append path, List.map_append, List.filter_append,
      List.map_singleton, List.filter_cons_of_pos (by simpa using hcounts), List.filter_nil,
      List.getLast?_concat]
  rw [fileStem, hlast]
  exact if_neg fun e => hup (String.ext e)

theorem fileStem_ne_empty {path : String} (h : EndsInName path) : fileStem path ≠ "" := by
  rw [fileStem_of_endsInName h]
  intro e
  refine stemOfName_ne_nil (lastName path).toList ?_ ?_
  · simpa using h.1
  · simpa using e

theorem no_slash_fileStem {path : String} (h : EndsInName path) :
    '/' ∉ (fileStem path).toList := by
  rw [fileStem_of_endsInName h, String.toList_ofList]
  intro hc
  exact Command.FileTree.no_slash_of_mem_namesOf (Command.FileTree.lastName_mem path)
    (stemOfName_subset _ hc)

end ProtoPhp.Text
