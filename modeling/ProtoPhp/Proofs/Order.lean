/-
The order of the files of a run.

The files of a run meet in the table alone, and there only the last file of each
package counts.  So the order of the files does not matter to the code of any of
them, as long as the files of each package keep their order or agree on the
namespace: a run over the files in another order gives the same blocks of output
in that order.

* `PackageTable.get?_ofFiles_eq` — the entry of a package comes from its last file;
* `PackageTable.get?_ofFiles_perm` — when the order leaves the entry of a package alone;
* `generateFiles_eq_ok_iff` — a run is the blocks of its files, one after the other;
* `generate_perm` — a run over the same files in another order.
-/
import ProtoPhp.Proofs.Locality

namespace ProtoPhp

open Descriptor

/-- The files of a run that have a package, in order. -/
def filesOf (files : List (File × Options)) (package : String) : List (File × Options) :=
  files.filter (·.1.package == package)

/-- All files of a package live in one namespace. -/
def AgreeOnNamespace (files : List (File × Options)) (package : String) : Prop :=
  ∀ f ∈ filesOf files package, ∀ g ∈ filesOf files package,
    f.2.namespaceFor package = g.2.namespaceFor package

instance (files : List (File × Options)) (package : String) :
    Decidable (AgreeOnNamespace files package) :=
  inferInstanceAs (Decidable (∀ f ∈ filesOf files package, ∀ g ∈ filesOf files package,
    f.2.namespaceFor package = g.2.namespaceFor package))

namespace PackageTable

/-- The entry of a package is the namespace that its last file gives it. -/
theorem get?_ofFiles_eq (files : List (File × Options)) (package : String) :
    (ofFiles files).get? package =
      (filesOf files package).getLast?.map fun f => f.2.namespaceFor package := by
  rw [ofFiles, get?_ofList_eq_last, lastNamespace, List.filter_map, List.getLast?_map,
    Option.map_map, filesOf]
  -- The package that a file is chosen by is the one that its namespace is taken for.
  refine Option.map_congr fun f hf => ?_
  have hpackage := (List.mem_filter.mp (List.mem_of_getLast? hf)).2
  rw [Function.comp_apply, ← eq_of_beq hpackage]

/-- A package has the same entry whatever the order of the files is, if its own files keep their
order or agree on the namespace. -/
theorem get?_ofFiles_perm {files files' : List (File × Options)} (hperm : files.Perm files')
    {package : String}
    (h : filesOf files package = filesOf files' package ∨ AgreeOnNamespace files package) :
    (ofFiles files).get? package = (ofFiles files').get? package := by
  rw [get?_ofFiles_eq, get?_ofFiles_eq]
  rcases h with h | h
  · rw [h]
  · have hfiles : (filesOf files package).Perm (filesOf files' package) := hperm.filter _
    -- Both lists end in some file of the package, or neither has one.
    cases hlast : (filesOf files package).getLast? with
    | none =>
      have hnil := List.getLast?_eq_none_iff.mp hlast
      rw [hnil] at hfiles
      rw [← hfiles.nil_eq]
      rfl
    | some f =>
      cases hlast' : (filesOf files' package).getLast? with
      | none =>
        have hnil := List.getLast?_eq_none_iff.mp hlast'
        rw [hnil] at hfiles
        rw [hfiles.eq_nil] at hlast
        cases hlast
      | some g =>
        have hf := List.mem_of_getLast? hlast
        have hg := hfiles.mem_iff.mpr (List.mem_of_getLast? hlast')
        exact congrArg some (h f hf g hg)

end PackageTable

/-- The output of one file of a run; empty if there is none. -/
def block (t : PackageTable) (date : Option Timestamp) (f : File × Options) : Output :=
  (generateFile t date f.1 f.2).toOption.getD {}

/-- A run succeeds if each file has its block, and then it gives these blocks one after the other. -/
theorem generateFiles_eq_ok_iff {t : PackageTable} {date : Option Timestamp}
    {files : List (File × Options)} {output : Output} :
    generateFiles t date files = .ok output ↔
      (∀ f ∈ files, generateFile t date f.1 f.2 = .ok (block t date f)) ∧
        output = .concat (files.map (block t date)) :=
  Output.concat_mapM_eq_ok_iff _

/-- Let the files of a run come in another order, such that the files of each package keep their order
or all live in one namespace.  Then the run succeeds if it did before, and each file has the same
block of files and warnings as before: one run gives the blocks in the first order, the other gives
them in the second. -/
theorem generate_perm {files files' : List (File × Options)} (hperm : files.Perm files')
    (hpackages : ∀ package,
      filesOf files package = filesOf files' package ∨ AgreeOnNamespace files package)
    (date : Option Timestamp) :
    ((∃ output, generate date files = .ok output) ↔ ∃ output, generate date files' = .ok output) ∧
      ∀ output, generate date files = .ok output →
        ∃ own : File × Options → Output,
          (∀ f ∈ files,
            generateFile (.ofFiles files) date f.1 f.2 = .ok (own f) ∧
              generateFile (.ofFiles files') date f.1 f.2 = .ok (own f)) ∧
          output = .concat (files.map own) ∧
          generate date files' = .ok (.concat (files'.map own)) := by
  -- The tables of both runs have the same entries, and so each file is generated alike.
  have hget : ∀ package, (PackageTable.ofFiles files).get? package =
      (PackageTable.ofFiles files').get? package := fun package =>
    PackageTable.get?_ofFiles_perm hperm (hpackages package)
  have hfile : ∀ f : File × Options, generateFile (.ofFiles files) date f.1 f.2 =
      generateFile (.ofFiles files') date f.1 f.2 := fun f =>
    generateFile_congr ⟨hget "", fun _ _ package _ => hget package⟩ date f.2
  have hblock : block (.ofFiles files') date = block (.ofFiles files) date := by
    funext f
    rw [block, block, hfile f]
  have hrun : ∀ output, generate date files' = .ok output ↔
      (∀ f ∈ files, generateFile (.ofFiles files) date f.1 f.2 =
          .ok (block (.ofFiles files) date f)) ∧
        output = .concat (files'.map (block (.ofFiles files) date)) := by
    intro output
    rw [generate, generateFiles_eq_ok_iff, hblock]
    simp only [hfile, hperm.mem_iff]
  refine ⟨?_, ?_⟩
  · constructor
    · rintro ⟨output, h⟩
      exact ⟨_, (hrun _).mpr ⟨(generateFiles_eq_ok_iff.mp h).1, rfl⟩⟩
    · rintro ⟨output, h⟩
      exact ⟨_, generateFiles_eq_ok_iff.mpr ⟨((hrun _).mp h).1, rfl⟩⟩
  · intro output h
    obtain ⟨hblocks, houtput⟩ := generateFiles_eq_ok_iff.mp h
    refine ⟨block (.ofFiles files) date, fun f hf => ?_, houtput, (hrun _).mpr ⟨hblocks, rfl⟩⟩
    exact ⟨hblocks f hf, (hfile f).symm.trans (hblocks f hf)⟩

/-- The first two files change places with the others: so the two files of one package agree on its
namespace, and the two of the package around it, which do not, keep their order. -/
theorem generate_perm_nested_packages :
    let inner : File × Options :=
      ({ name := "inner.proto", package := "a.b"
         messages := [{ name := "N", fields := [{ type := .enum, typeName := some ".a.E" }] }] }, {})
    let plain : File × Options := ({ name := "plain.proto", enums := [{ name := "P" }] }, {})
    let early : File × Options :=
      ({ name := "early.proto", package := "a"
         messages := [{ name := "M", fields := [{ type := .message, typeName := some ".a.b.N" }] }] },
        { namespaceText := some "Early" })
    let late : File × Options :=
      ({ name := "late.proto", package := "a", enums := [{ name := "E" }] },
        { package := some "Late" })
    let further : File × Options :=
      ({ name := "further.proto", package := "a.b", enums := [{ name := "F" }] },
        { multifile := true })
    (∃ output, generate none [inner, plain, early, late, further] = .ok output) ∧
      ∃ own : File × Options → Output,
        generate none [inner, plain, early, late, further] =
          .ok (.concat [own inner, own plain, own early, own late, own further]) ∧
        generate none [early, late, further, inner, plain] =
          .ok (.concat [own early, own late, own further, own inner, own plain]) := by
  intro inner plain early late further
  have hperm : [inner, plain, early, late, further].Perm [early, late, further, inner, plain] :=
    (List.perm_append_comm : ([inner, plain] ++ [early, late, further]).Perm _)
  have hpackages : ∀ package,
      filesOf [inner, plain, early, late, further] package =
          filesOf [early, late, further, inner, plain] package ∨
        AgreeOnNamespace [inner, plain, early, late, further] package := by
    intro package
    by_cases hinner : package = "a.b"
    · subst hinner
      exact .inr (by decide)
    · by_cases hplain : package = ""
      · subst hplain
        exact .inl rfl
      · have hi : ("a.b" == package) = false := by simpa using Ne.symm hinner
        have hp : ("" == package) = false := by simpa using Ne.symm hplain
        refine .inl ?_
        simp [filesOf, List.filter_cons, inner, plain, early, late, further, hi, hp]
  obtain ⟨output, houtput⟩ := exists_generateFiles_ok
    (.ofFiles [inner, plain, early, late, further]) none [inner, plain, early, late, further]
    (by decide)
  obtain ⟨own, -, rfl, hown⟩ := (generate_perm hperm hpackages none).2 output houtput
  exact ⟨⟨_, houtput⟩, own, houtput, hown⟩

end ProtoPhp
