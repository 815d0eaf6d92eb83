/-
The names in a path.

A path is cut at its slashes.  So it is known from its names, and a slash
between two paths puts their names one behind the other.

* `FileTree.namesOf_intercalate`, `FileTree.intercalate_namesOf` — paths and
  lists of names without slashes stand for each other;
* `FileTree.namesOf_append` — what is added at the end of a path is added to its
  last name;
* `placeOf_joinPath` — the place of a path below a directory.
-/
import Mathlib.Data.List.Basic
import ProtoPhp.Command.FileTree
import ProtoPhp.Proofs.Text.Splitting

namespace ProtoPhp

namespace Command

namespace FileTree

theorem namesOf_append_slash (a b : String) :
    namesOf (a ++ "/" ++ b) = namesOf a ++ namesOf b := by
  have h : (a ++ "/" ++ b).toList = a.toList ++ '/' :: b.toList := by simp
  rw [namesOf, h, List.splitOn_append_cons_self, List.map_append]
  rfl

theorem namesOf_of_no_slash {name : String} (h : '/' ∉ name.toList) : namesOf name = [name] := by
  rw [namesOf, List.splitOn_eq_singleton h, List.map_singleton, String.ofList_toList]

theorem no_slash_of_mem_namesOf {path name : String} (h : name ∈ namesOf path) :
    '/' ∉ name.toList := by
  obtain ⟨cs, hcs, rfl⟩ := List.mem_map.mp h
  rw [List.splitOn_eq_splitOnP] at hcs
  intro hc
  rw [String.toList_ofList] at hc
  simpa using Text.eq_false_of_mem_splitOnP hcs '/' hc

theorem namesOf_ne_nil (path : String) : namesOf path ≠ [] := by
  rw [namesOf, Ne, List.map_eq_nil_iff]
  exact List.splitOn_ne_nil '/' path.toList

/-- Names without slashes are the names of the path that they make. -/
theorem namesOf_intercalate {names : List String} (hne : names ≠ [])
    (h : ∀ name ∈ names, '/' ∉ name.toList) : namesOf ("/".intercalate names) = names := by
  have hpieces : ∀ cs ∈ names.map String.toList, '/' ∉ cs := by
    intro cs hcs
    obtain ⟨name, hname, rfl⟩ := List.mem_map.mp hcs
    exact h name hname
  have hsplit := List.splitOn_intercalate '/' hpieces (by simpa using hne)
  rw [namesOf, String.toList_intercalate]
  exact (congrArg _ hsplit).trans (by simp)

theorem map_toList_namesOf (path : String) :
    (namesOf path).map String.toList = path.toList.splitOn '/' := by
  rw [namesOf, List.map_map]
  exact (List.map_congr_left fun cs _ => String.toList_ofList).trans (List.map_id _)

/-- A path is made of its names. -/
theorem intercalate_namesOf (path : String) : "/".intercalate (namesOf path) = path := by
  refine String.ext ?_
  rw [String.toList_intercalate, map_toList_namesOf]
  exact List.intercalate_splitOn '/'

theorem namesOf_injective {a b : String} (h : namesOf a = namesOf b) : a = b := by
  rw [← intercalate_namesOf a, h, intercalate_namesOf]

theorem namesOf_eq_dropLast_append (path : String) :
    namesOf path = (namesOf path).dropLast ++ [lastName path] := by
  rw [lastName, List.getLast?_eq_some_getLast (namesOf_ne_nil path), Option.getD_some,
    List.dropLast_append_getLast]

theorem lastName_mem (path : String) : lastName path ∈ namesOf path := by
  rw [namesOf_eq_dropLast_append path]
  exact List.mem_append_right _ (List.mem_singleton_self _)

theorem intercalate_concat_append (names : List String) (name suffix : String) :
    "/".intercalate (names ++ [name]) ++ suffix = "/".intercalate (names ++ [name ++ suffix]) := by
  by_cases h : names = []
  · simp [h]
  · rw [String.intercalate_append_of_ne_nil h (List.cons_ne_nil _ _),
      String.intercalate_append_of_ne_nil h (List.cons_ne_nil _ _), String.intercalate_singleton,
      String.intercalate_singleton, String.append_assoc]

/-- What is added at the end of a path is added to its last name. -/
theorem namesOf_append (path : String) {suffix : String} (h : '/' ∉ suffix.toList) :
    namesOf (path ++ suffix) = (namesOf path).dropLast ++ [lastName path ++ suffix] := by
  have hpath : path ++ suffix =
      "/".intercalate ((namesOf path).dropLast ++ [lastName path ++ suffix]) := by
    rw [← intercalate_concat_append, ← namesOf_eq_dropLast_append, intercalate_namesOf]
  rw [hpath, namesOf_intercalate (by simp)]
  intro name hname
  rcases List.mem_append.mp hname with hname | hname
  · exact no_slash_of_mem_namesOf (List.dropLast_subset _ hname)
  · rw [List.mem_singleton.mp hname, String.toList_append, List.mem_append]
    rintro (hlast | hsuffix)
    · exact no_slash_of_mem_namesOf (lastName_mem path) hlast
    · exact h hsuffix

theorem lastName_append (path : String) {suffix : String} (h : '/' ∉ suffix.toList) :
    lastName (path ++ suffix) = lastName path ++ suffix := by
  rw [lastName, namesOf_append path h, List.getLast?_concat, Option.getD_some]

theorem lastName_append_slash (a b : String) : lastName (a ++ "/" ++ b) = lastName b := by
  rw [lastName, namesOf_append_slash, List.getLast?_append_of_ne_nil _ (namesOf_ne_nil b), lastName]

theorem lastName_of_no_slash {name : String} (h : '/' ∉ name.toList) : lastName name = name := by
  rw [lastName, namesOf_of_no_slash h, List.getLast?_singleton, Option.getD_some]

theorem lastName_intercalate (names : List String) {name : String} (h : '/' ∉ name.toList) :
    lastName ("/".intercalate (names ++ [name])) = name := by
  by_cases hnames : names = []
  · rw [hnames, List.nil_append, String.intercalate_singleton, lastName_of_no_slash h]
  · rw [String.intercalate_append_of_ne_nil hnames (List.cons_ne_nil _ _),
      String.intercalate_singleton, lastName_append_slash, lastName_of_no_slash h]

/-- The names that lead somewhere: an empty name and a single dot do not. -/
def steps (names : List String) : List String := names.filter fun n => !(n == "" || n == ".")

/-- The way to the directory of a path. -/
def directoryOf (path : String) : List String := steps (namesOf path).dropLast

/-- The place of the file at a path, from the directory where the path starts. -/
def placeOf (path : String) : List String := directoryOf path ++ [lastName path]

/-- A path that starts at the working directory and never goes up. -/
def StaysBelow (path : String) : Prop := path.toList.head? ≠ some '/' ∧ ".." ∉ namesOf path

instance (path : String) : Decidable (StaysBelow path) :=
  inferInstanceAs (Decidable (path.toList.head? ≠ some '/' ∧ ".." ∉ namesOf path))

theorem steps_nil : steps [] = [] := rfl

theorem steps_cons (name : String) (rest : List String) :
    steps (name :: rest) = if name = "" ∨ name = "." then steps rest else name :: steps rest := by
  rw [steps, List.filter_cons]
  by_cases hempty : name = "" <;> by_cases hdot : name = "." <;> simp [steps, hempty, hdot]

theorem steps_append (a b : List String) : steps (a ++ b) = steps a ++ steps b :=
  List.filter_append _ _

theorem start_of_staysBelow {path : String} (h : StaysBelow path) : start path = .inside [] := by
  rw [start, if_neg h.1]

end FileTree

open FileTree

/-- The names of a path below a directory are those of the directory, but for an empty one at the
end, then those of the path. -/
theorem exists_namesOf_joinPath (directory : String) {path : String}
    (hp : path.toList.head? ≠ some '/') :
    ∃ front, namesOf (joinPath directory path) = front ++ namesOf path ∧
      steps front = steps (namesOf directory) ∧ front ⊆ namesOf directory := by
  rw [joinPath, if_neg hp]
  by_cases hlast : directory.toList.getLast? = some '/'
  · rw [if_pos hlast]
    obtain ⟨cs, hcs⟩ := List.getLast?_eq_some_iff.mp hlast
    have hdirectory : directory = String.ofList cs ++ "/" := by
      refine String.ext ?_
      simpa using hcs
    have hnames : namesOf directory = namesOf (String.ofList cs) ++ [""] := by
      have h := namesOf_append_slash (String.ofList cs) ""
      rwa [String.append_empty, ← hdirectory] at h
    refine ⟨namesOf (String.ofList cs), ?_, ?_, ?_⟩
    · rw [hdirectory, namesOf_append_slash]
    · rw [hnames, steps_append]
      exact (List.append_nil _).symm
    · rw [hnames]
      exact List.subset_append_left _ _
  · rw [if_neg hlast]
    exact ⟨namesOf directory, namesOf_append_slash directory path, rfl, List.Subset.refl _⟩

theorem lastName_joinPath (directory : String) {path : String}
    (hp : path.toList.head? ≠ some '/') : lastName (joinPath directory path) = lastName path := by
  obtain ⟨front, hnames, -, -⟩ := exists_namesOf_joinPath directory hp
  rw [lastName, hnames, List.getLast?_append_of_ne_nil _ (namesOf_ne_nil path), lastName]

/-- The way to the directory of a path below another directory goes through that one. -/
theorem directoryOf_joinPath (directory : String) {path : String}
    (hp : path.toList.head? ≠ some '/') :
    directoryOf (joinPath directory path) = steps (namesOf directory) ++ directoryOf path := by
  obtain ⟨front, hnames, hsteps, -⟩ := exists_namesOf_joinPath directory hp
  rw [directoryOf, hnames, List.dropLast_append_of_ne_nil (namesOf_ne_nil path), steps_append,
    hsteps, directoryOf]

theorem placeOf_joinPath (directory : String) {path : String}
    (hp : path.toList.head? ≠ some '/') :
    placeOf (joinPath directory path) = steps (namesOf directory) ++ placeOf path := by
  rw [placeOf, directoryOf_joinPath directory hp, lastName_joinPath directory hp, placeOf, List.append_assoc]

/-- Below a directory that is not left, a path that never goes up is not left either. -/
theorem staysBelow_joinPath {directory path : String} (hd : directory ≠ "")
    (hdirectory : StaysBelow directory) (hpath : StaysBelow path) :
    StaysBelow (joinPath directory path) := by
  obtain ⟨front, hnames, -, hfront⟩ := exists_namesOf_joinPath directory hpath.1
  refine ⟨?_, ?_⟩
  · have hhead : ∀ rest, (directory ++ rest).toList.head? = directory.toList.head? := by
      intro rest
      rw [String.toList_append, List.head?_append_of_ne_nil]
      simpa using hd
    rw [joinPath, if_neg hpath.1]
    by_cases hlast : directory.toList.getLast? = some '/'
    · rw [if_pos hlast, hhead]
      exact hdirectory.1
    · rw [if_neg hlast, String.append_assoc, hhead]
      exact hdirectory.1
  · rw [hnames, List.mem_append]
    rintro (h | h)
    · exact hdirectory.2 (hfront h)
    · exact hpath.2 h

end Command

end ProtoPhp
