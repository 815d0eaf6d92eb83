/-
The class that is printed and the class that is named.

A declaration is printed in the namespace that the options of its own file give
to its package.  A reference to it is resolved by the table, where the last file
with the package counts.  Both add the same path, so that they meet exactly if
the two namespaces are the same.

* `PackageTable.resolve_fullName` — the class that the full name of a
  declaration stands for;
* `className_of_declaration` — the class that is printed, and when the two agree.
-/
import ProtoPhp.Proofs.Units

namespace ProtoPhp

open Descriptor

/-- All declared names are plain. -/
def PlainNames (files : List (File × Options)) : Prop :=
  ∀ f ∈ files, ∀ d ∈ Declaration.ofFile f.1, Namespace.IsPlain d.name

instance (files : List (File × Options)) : Decidable (PlainNames files) :=
  inferInstanceAs (Decidable (∀ f ∈ files, ∀ d ∈ Declaration.ofFile f.1,
    Namespace.IsPlain d.name))

/-- No file has the full name of a declared type for its package. -/
def PackagesApart (files : List (File × Options)) : Prop :=
  ∀ g ∈ files, ∀ f ∈ files, ∀ d ∈ Declaration.ofFile f.1,
    g.1.package ≠ d.fullName f.1.package

instance (files : List (File × Options)) : Decidable (PackagesApart files) :=
  inferInstanceAs (Decidable (∀ g ∈ files, ∀ f ∈ files, ∀ d ∈ Declaration.ofFile f.1,
    g.1.package ≠ d.fullName f.1.package))

/-- The full name of a declaration stands for its path below the namespace of its package. -/
theorem PackageTable.resolve_fullName {files : List (File × Options)} (hplain : PlainNames files)
    (hapart : PackagesApart files) {f : File × Options} (hf : f ∈ files) {d : Declaration}
    (hd : d ∈ Declaration.ofFile f.1) {ns : Namespace}
    (hget : (ofFiles files).get? f.1.package = some ns) :
    (ofFiles files).resolve ("." ++ d.fullName f.1.package) = .ok ⟨ns.join ⟨d.path⟩, []⟩ := by
  have hpath : ∀ name ∈ d.path, Namespace.IsPlain name :=
    Declaration.forall_mem_path (hplain f hf) hd
  have hlong : ∀ head ∈ Text.dottedHeads (d.fullName f.1.package),
      ((ofFiles files).get? head).isSome = true → head.length ≤ f.1.package.length := by
    intro head hhead hsome
    have hdots : ∀ name ∈ d.path, '.' ∉ name.toList := by
      intro name hname
      exact (hpath name hname).2.1
    rcases Text.mem_dottedHeads_qualify hdots d.path_ne_nil hhead with
      hhead | ⟨k, hpos, hk, rfl⟩
    · exact Text.length_le_of_mem_dottedHeads hhead
    · -- A longer head is the full name of a type around the declaration, and so no package.
      obtain ⟨e, he, hepath⟩ := Declaration.exists_of_take hd hpos hk
      obtain ⟨g, hg, hgp⟩ := (isSome_get?_ofFiles files _).mp hsome
      rw [← hepath] at hgp
      exact absurd hgp (hapart g hg f hf e he)
  rw [resolve_eq, Reference.isQualified_dot_append, if_pos rfl, Reference.name_dot_append,
    Declaration.fullName, resolveQualified_qualify hget hlong, Namespace.parse_intercalate hpath]

/-- The unit of a declaration stands at the place of the declaration. -/
theorem getElem?_fileUnits {t : PackageTable} {file : File} {options : Options}
    {units : List SourceUnit} {log : List Warning}
    (h : fileUnits t file options = .ok (units, log)) {i : Nat} {d : Declaration}
    (hd : (Declaration.ofFile file)[i]? = some d) :
    units[i]? = some (SourceUnit.ofDeclaration t (options.namespaceFor file.package) d) := by
  rw [fileUnits_eq] at h
  cases hfind : file.references.find? (!Reference.isQualified ·) with
  | some r =>
    rw [hfind] at h
    cases h
  | none =>
    rw [hfind] at h
    cases h
    obtain ⟨hi, -⟩ := List.getElem?_eq_some_iff.mp hd
    rw [SourceUnit.resolved, List.getElem?_append_left (by rwa [List.length_map]),
      List.getElem?_map, hd, Option.map_some]

/-- The names below a namespace tell the namespace. -/
theorem Namespace.join_right_cancel {a b n : Namespace} : a.join n = b.join n ↔ a = b := by
  obtain ⟨as⟩ := a
  obtain ⟨bs⟩ := b
  simp [Namespace.join]

/-- In a run over files with plain names, in which no package is the name of a type, a reference to a
declared type is resolved without a warning to the path of the type below the namespace that the last
file with its package gives.  The unit of the type has the same path below the namespace of its own
file.  So the class that is printed is the class that is referred to exactly if the two files agree on
the namespace. -/
theorem className_of_declaration {files : List (File × Options)} (hplain : PlainNames files)
    (hapart : PackagesApart files) {f : File × Options} (hf : f ∈ files) {i : Nat}
    {d : Declaration} (hd : (Declaration.ofFile f.1)[i]? = some d) :
    ∃ before last after, files = before ++ last :: after ∧ last.1.package = f.1.package ∧
      (∀ g ∈ after, g.1.package ≠ f.1.package) ∧
      (PackageTable.ofFiles files).resolve ("." ++ d.fullName f.1.package) =
        .ok ⟨(last.2.namespaceFor f.1.package).join ⟨d.path⟩, []⟩ ∧
      ((∀ r ∈ f.1.references, Reference.isQualified r = true) →
        ∃ units log, fileUnits (.ofFiles files) f.1 f.2 = .ok (units, log)) ∧
      ∀ units log, fileUnits (.ofFiles files) f.1 f.2 = .ok (units, log) →
        ∃ u, units[i]? = some u ∧ u.code = SourceUnit.codeOf (.ofFiles files) u.scope d.type ∧
          u.className = (f.2.namespaceFor f.1.package).join ⟨d.path⟩ ∧
          (u.className = (last.2.namespaceFor f.1.package).join ⟨d.path⟩ ↔
            f.2.namespaceFor f.1.package = last.2.namespaceFor f.1.package) := by
  -- The last file with the package of `f` is the one whose entry the table keeps.
  obtain ⟨before, last, after, hfiles, hlast, hafter⟩ :=
    PackageTable.exists_last_with_package ⟨f, hf, rfl⟩
  have hget : (PackageTable.ofFiles files).get? f.1.package =
      some (last.2.namespaceFor f.1.package) := by
    rw [← hlast] at hafter ⊢
    exact PackageTable.get?_ofFiles hfiles hafter
  refine ⟨before, last, after, hfiles, hlast, hafter, ?_, ?_, ?_⟩
  · exact PackageTable.resolve_fullName hplain hapart hf (List.mem_of_getElem? hd) hget
  · intro hall
    have hnone : f.1.references.find? (!Reference.isQualified ·) = none := by
      rw [List.find?_eq_none]
      intro r hr
      simp [hall r hr]
    rw [fileUnits_eq, hnone]
    exact ⟨_, _, rfl⟩
  · intro units log hunits
    refine ⟨_, getElem?_fileUnits hunits hd, rfl, SourceUnit.className_ofDeclaration _ _ d, ?_⟩
    rw [SourceUnit.className_ofDeclaration, Namespace.join_right_cancel]

/-- Two files of one package with different namespaces, beside a package inside it: the inner message
of the first file is printed in one class and referred to as another. -/
theorem className_of_nested_message :
    let first : File × Options :=
      ({ name := "first.proto", package := "a"
         messages := [{ name := "M", messages := [{ name := "N" }] }] },
        { namespaceText := some "Early" })
    let files := [first, ({ name := "inner.proto", package := "a.b" }, {}),
      ({ name := "last.proto", package := "a", enums := [{ name := "E" }] },
        { package := some "Late.Part" })]
    PlainNames files ∧ PackagesApart files ∧
      ∃ units log u, fileUnits (.ofFiles files) first.1 first.2 = .ok (units, log) ∧
        units[0]? = some u ∧ u.className = ⟨["Early", "M", "N"]⟩ ∧
        (PackageTable.ofFiles files).resolve ".a.M.N" = .ok ⟨⟨["Late", "Part", "M", "N"]⟩, []⟩ := by
  intro first files
  have hplain : PlainNames files := by decide
  have hapart : PackagesApart files := by decide
  obtain ⟨_, _, _, _, _, _, _, hgenerated, hunits⟩ :=
    className_of_declaration hplain hapart (f := first) List.mem_cons_self (i := 0)
      (d := ⟨["M"], .message { name := "N" }⟩) rfl
  obtain ⟨units, log, h⟩ := hgenerated (by decide)
  obtain ⟨u, hu, -, hname, -⟩ := hunits units log h
  exact ⟨hplain, hapart, units, log, u, h, hu, hname.trans (by decide), rfl⟩

end ProtoPhp
