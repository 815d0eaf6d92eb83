/-
Files with tidy names written below a directory.

Where the names of files have dots and those of directories have none, no file
lies on the way to another, and files with different names have different
places.  So all of them can be written below one directory, and all of them are
there afterwards.

* `FileTree.fits_of_endsInName` — paths at which a file may be written;
* `FileTree.keepsApart_of_isTidy` — below any directory at all, files with tidy
  names do not get in each other's way;
* `writeFiles_of_isTidy` — what is written below a directory is read back there.
-/
import ProtoPhp.Proofs.Command.FileTree
import ProtoPhp.Proofs.Text.FileStem

namespace ProtoPhp.Command

open Wire

open Surroundings (isFileName)

namespace FileTree

theorem placeOf_subset (path : String) : placeOf path ⊆ namesOf path := by
  intro n hn
  rcases List.mem_append.mp hn with hn | hn
  · exact List.dropLast_subset _ (List.mem_filter.mp hn).1
  · rw [List.mem_singleton.mp hn]
    exact lastName_mem path

theorem ne_of_mem_steps {names : List String} {n : String} (h : n ∈ steps names) :
    n ≠ "" ∧ n ≠ "." := by
  simpa using (List.mem_filter.mp h).2

/-- A path of the length that a system allows, with names of the length that it allows. -/
def WithinLimits (path : String) : Prop :=
  isPath path = true ∧ ∀ n ∈ namesOf path, n.utf8ByteSize ≤ 255

instance (path : String) : Decidable (WithinLimits path) :=
  inferInstanceAs (Decidable (isPath path = true ∧ ∀ n ∈ namesOf path, n.utf8ByteSize ≤ 255))

/-- A path within the limits that never goes up and ends in the name of a file fits. -/
theorem fits_of_endsInName {path : String} (hlimits : WithinLimits path) (hbelow : StaysBelow path)
    (hlast : Text.EndsInName path) : Fits path where
  isPath := hlimits.1
  staysBelow := hbelow
  isFileName n hn := by
    have hin := placeOf_subset path hn
    have hup : n ≠ ".." := fun e => hbelow.2 (e ▸ hin)
    have hname : n ≠ "" ∧ n ≠ "." := by
      rcases List.mem_append.mp hn with hn | hn
      · exact ne_of_mem_steps hn
      · rw [List.mem_singleton.mp hn]
        exact ⟨hlast.1, hlast.2.1⟩
    simp [isFileName, hname.1, hname.2, hup, hlimits.2 n hin]

/-- A path whose directories have names without dots and whose last name has a dot. -/
structure IsTidy (path : String) : Prop where
  directory : ∀ n ∈ (namesOf path).dropLast, n ≠ "" ∧ '.' ∉ n.toList
  dot : '.' ∈ (lastName path).toList
  endsInName : Text.EndsInName path

namespace IsTidy

variable {path : String} (h : IsTidy path)

include h

theorem staysBelow : StaysBelow path := by
  refine ⟨fun hslash => ?_, fun hup => ?_⟩
  · -- A slash at the start makes an empty name there.
    obtain ⟨cs, hcs⟩ : ∃ cs, path.toList = '/' :: cs := List.head?_eq_some_iff.mp hslash
    have hpath : path = "" ++ "/" ++ String.ofList cs := by
      refine String.ext ?_
      simpa using hcs
    have hnames : namesOf path = "" :: namesOf (String.ofList cs) := by
      rw [hpath, namesOf_append_slash]
      rfl
    refine (h.directory "" ?_).1 rfl
    rw [hnames, List.dropLast_cons_of_ne_nil (namesOf_ne_nil _)]
    exact List.mem_cons_self
  · rw [namesOf_eq_dropLast_append, List.mem_append, List.mem_singleton] at hup
    rcases hup with hup | hup
    · exact (h.directory _ hup).2 (by decide)
    · exact h.endsInName.2.2 hup.symm

/-- Every name but the last one is a directory. -/
theorem directoryOf_eq : directoryOf path = (namesOf path).dropLast := by
  rw [directoryOf, steps, List.filter_eq_self]
  intro n hn
  obtain ⟨hne, hdot⟩ := h.directory n hn
  have hself : n ≠ "." := by
    rintro rfl
    exact hdot (by decide)
  simp [hne, hself]

theorem placeOf_eq : placeOf path = namesOf path := by
  rw [placeOf, h.directoryOf_eq, ← namesOf_eq_dropLast_append]

/-- A tidy path does not lead through the place of another one. -/
theorem not_prefix_directoryOf {other : String} (ho : IsTidy other) :
    ¬ placeOf path <+: directoryOf other := by
  intro hprefix
  have hmem : lastName path ∈ directoryOf other :=
    hprefix.subset (List.mem_append_right _ (List.mem_singleton_self _))
  rw [ho.directoryOf_eq] at hmem
  exact (ho.directory _ hmem).2 h.dot

end IsTidy

/-- Below a directory, wherever it is, paths have places of their own.  Each place goes on from the
directory name by name and never up again, and none of them lies on the way to another. -/
structure KeepsApart (directory : String) (paths : List String) : Prop where
  below : ∀ path ∈ paths,
    placeOf (joinPath directory path) = steps (namesOf directory) ++ namesOf path ∧
      ".." ∉ namesOf path
  nodup : (paths.map fun path => placeOf (joinPath directory path)).Nodup
  through : ∀ path ∈ paths, ∀ other ∈ paths,
    ¬ placeOf (joinPath directory path) <+: directoryOf (joinPath directory other)

/-- Different tidy paths have places of their own below every directory. -/
theorem keepsApart_of_isTidy (directory : String) {paths : List String}
    (htidy : ∀ path ∈ paths, IsTidy path) (hnodup : paths.Nodup) : KeepsApart directory paths := by
  have hplace : ∀ path ∈ paths,
      placeOf (joinPath directory path) = steps (namesOf directory) ++ namesOf path := by
    intro path hpath
    rw [placeOf_joinPath directory (htidy path hpath).staysBelow.1, (htidy path hpath).placeOf_eq]
  refine ⟨fun path hpath => ⟨hplace path hpath, (htidy path hpath).staysBelow.2⟩, ?_, ?_⟩
  · refine List.pairwise_map.mpr (hnodup.imp_of_mem fun {path other} hpath hother hne heq => ?_)
    rw [hplace path hpath, hplace other hother] at heq
    exact hne (namesOf_injective (List.append_cancel_left heq))
  · intro path hpath other hother
    rw [placeOf_joinPath directory (htidy path hpath).staysBelow.1,
      directoryOf_joinPath directory (htidy other hother).staysBelow.1, List.prefix_append_right_inj]
    exact (htidy path hpath).not_prefix_directoryOf (htidy other hother)

end FileTree

open FileTree

/-- Files with different tidy names are written below a directory, if there is room for each of them,
and each of them is read back under its name. -/
theorem writeFiles_of_isTidy {directory : String} (hne : directory ≠ "")
    (hdirectory : StaysBelow directory) (printed : Bytes) {files : List GeneratedFile}
    (htidy : ∀ f ∈ files, IsTidy f.name) (hnames : (files.map GeneratedFile.name).Nodup)
    {t : FileTree} (hlimits : ∀ f ∈ files, WithinLimits (joinPath directory f.name))
    (hroom : ∀ f ∈ files, t.HasRoom (joinPath directory f.name)) :
    ∃ t', writeFiles directory printed files t = (.success printed, t') ∧
      ∀ f ∈ files, ∀ stdin,
        t'.read? stdin (joinPath directory f.name) = some (encodeText f.content) := by
  have hfits : ∀ f ∈ files, Fits (joinPath directory f.name) := by
    intro f hf
    have hbelow := (htidy f hf).staysBelow
    refine fits_of_endsInName (hlimits f hf) (staysBelow_joinPath hne hdirectory hbelow) ?_
    rw [Text.EndsInName, lastName_joinPath directory hbelow.1]
    exact (htidy f hf).endsInName
  have hapart := keepsApart_of_isTidy directory (List.forall_mem_map.mpr htidy) hnames
  have hplaces := hapart.nodup
  rw [List.map_map] at hplaces
  obtain ⟨t', hrun, hholds, -⟩ := writeFiles_eq directory printed hfits hroom
    (fun f hf g hg =>
      hapart.through _ (List.mem_map_of_mem hf) _ (List.mem_map_of_mem hg)) hplaces
  exact ⟨t', hrun, fun f hf stdin => (hholds f hf).read?_eq (hfits f hf) stdin⟩

end ProtoPhp.Command
