/-
Generated files with the same name.

In a run without overrides the classes keep apart on their own: different types
have different paths, and no class has the path of registrations.  Names can
only clash where a stem takes part: two stems are the same, or the stem of a
schema with one file is the path of a unit of another schema.  Without a clash
every generated file is found under its name, in memory and on disk.

* `IsRegular` — a schema without overrides whose package and types have proper names;
* `Apart` — two schemas that do not clash;
* `generate_keeps_files` — a run keeps its files apart if every two of its schemas are apart.
-/
import Mathlib.Data.List.Nodup
import ProtoPhp.Proofs.Command.Writing
import ProtoPhp.Proofs.FileNames

namespace ProtoPhp

open Descriptor

open Command Command.FileTree

/-- Plain names without slashes, with dots between them. -/
def Namespace.IsPackageName (package : String) : Prop :=
  (parse package).dotted = package ∧ '/' ∉ package.toList

instance (package : String) : Decidable (Namespace.IsPackageName package) :=
  inferInstanceAs (Decidable ((Namespace.parse package).dotted = package ∧ '/' ∉ package.toList))

namespace Declaration

/-- The full names of the types of a schema. -/
def fullNames (file : File) : List String := (ofFile file).map (fullName file.package)

/-- The paths of the classes of a schema without overrides. -/
def filePaths (file : File) : List String := (ofFile file).map (filePath (.parse file.package))

/-- The names that lead to a class. -/
def segments (package : String) (d : Declaration) : List String :=
  (Namespace.parse package).segments ++ d.path

theorem fullName_eq_intercalate {package : String} (hpackage : Namespace.IsPackageName package)
    (d : Declaration) : d.fullName package = ".".intercalate (d.segments package) := by
  have hdotted := hpackage.1
  rw [Namespace.dotted] at hdotted
  by_cases h : (Namespace.parse package).segments = []
  · rw [h] at hdotted
    rw [fullName, segments, h, ← hdotted]
    rfl
  · have hne : package ≠ "" := by
      rintro rfl
      exact h rfl
    rw [fullName, Text.qualify_of_ne_empty hne, segments,
      String.intercalate_append_of_ne_nil h d.path_ne_nil, hdotted]

end Declaration

/-- A schema whose package and types have proper names, with options that override nothing. -/
structure IsRegular (f : File × Options) : Prop where
  options : f.2.OverridesNothing
  package : Namespace.IsPackageName f.1.package
  types : ∀ d ∈ Declaration.ofFile f.1, Text.isIdentifier d.name = true

instance (f : File × Options) : Decidable (IsRegular f) :=
  decidable_of_iff (f.2.OverridesNothing ∧ Namespace.IsPackageName f.1.package ∧
      ∀ d ∈ Declaration.ofFile f.1, Text.isIdentifier d.name = true)
    ⟨fun ⟨options, package, types⟩ => ⟨options, package, types⟩,
      fun ⟨options, package, types⟩ => ⟨options, package, types⟩⟩

/-- The paths of the units of a schema without overrides. -/
def SourceUnit.ownPaths (file : File) : List String :=
  unitPaths (.parse file.package) (Text.fileStem file.name) file

/-- Two schemas whose generated files do not clash.  Where types have files of their own in both, the
stems differ if both have registrations.  Where they do in one, the stem of the other is the path of
no unit there.  Where they do in none, the stems differ. -/
def Apart (f g : File × Options) : Prop :=
  if f.2.multifile then
    if g.2.multifile then
      f.1.extendees ≠ [] → g.1.extendees ≠ [] → Text.fileStem f.1.name ≠ Text.fileStem g.1.name
    else Text.fileStem g.1.name ∉ SourceUnit.ownPaths f.1
  else
    if g.2.multifile then Text.fileStem f.1.name ∉ SourceUnit.ownPaths g.1
    else Text.fileStem f.1.name ≠ Text.fileStem g.1.name

instance (f g : File × Options) : Decidable (Apart f g) :=
  inferInstanceAs (Decidable (if f.2.multifile then
    if g.2.multifile then
      f.1.extendees ≠ [] → g.1.extendees ≠ [] → Text.fileStem f.1.name ≠ Text.fileStem g.1.name
    else Text.fileStem g.1.name ∉ SourceUnit.ownPaths f.1
  else
    if g.2.multifile then Text.fileStem f.1.name ∉ SourceUnit.ownPaths g.1
    else Text.fileStem f.1.name ≠ Text.fileStem g.1.name))

namespace IsRegular

variable {f g : File × Options}

theorem namespaceFor_eq (hf : IsRegular f) :
    f.2.namespaceFor f.1.package = .parse f.1.package :=
  hf.options.namespaceFor_eq _

/-- The names that lead to a class are plain and have no slash. -/
theorem segments_plain (hf : IsRegular f) {d : Declaration} (hd : d ∈ Declaration.ofFile f.1) :
    ∀ s ∈ d.segments f.1.package, Namespace.IsPlain s ∧ '/' ∉ s.toList := by
  intro s hs
  rcases List.mem_append.mp hs with hs | hs
  · refine ⟨Namespace.isPlain_of_mem_parse hs, fun hslash => hf.package.2 ?_⟩
    rw [← hf.package.1]
    exact Text.mem_intercalate_of_mem hs hslash
  · have hname : Text.isIdentifier s = true :=
      Declaration.forall_mem_path (p := fun n => Text.isIdentifier n = true) hf.types hd s hs
    exact ⟨Text.isPlain_of_isIdentifier hname, Text.not_mem_of_isIdentifier hname rfl⟩

theorem namesOf_filePath (hf : IsRegular f) {d : Declaration} (hd : d ∈ Declaration.ofFile f.1) :
    namesOf (d.filePath (.parse f.1.package)) = d.segments f.1.package := by
  refine namesOf_intercalate ?_ fun s hs => (hf.segments_plain hd s hs).2
  simp [d.path_ne_nil]

/-- Types with different full names have classes at different paths. -/
theorem disjoint_filePaths (hf : IsRegular f) (hg : IsRegular g)
    (h : List.Disjoint (Declaration.fullNames f.1) (Declaration.fullNames g.1)) :
    List.Disjoint (Declaration.filePaths f.1) (Declaration.filePaths g.1) := by
  rw [List.disjoint_left] at h ⊢
  intro path hleft hright
  obtain ⟨d, hd, rfl⟩ := List.mem_map.mp hleft
  obtain ⟨e, he, hpath⟩ := List.mem_map.mp hright
  -- A path gives back the names that it is made of, and these make up the full name.
  have hsegments : d.segments f.1.package = e.segments g.1.package := by
    rw [← hf.namesOf_filePath hd, ← hg.namesOf_filePath he, hpath]
  refine h (List.mem_map_of_mem hd) (List.mem_map.mpr ⟨e, he, ?_⟩)
  rw [Declaration.fullName_eq_intercalate hf.package, hsegments,
    Declaration.fullName_eq_intercalate hg.package]

theorem registrations_not_mem_filePaths (hf : IsRegular f) (stem : String) :
    stem ++ "-extensions" ∉ Declaration.filePaths f.1 := by
  intro h
  obtain ⟨d, hd, hpath⟩ := List.mem_map.mp h
  exact Declaration.filePath_ne_registrations _ (hf.types d hd) stem hpath

/-- The units of two schemas with different types can only share the path of registrations. -/
theorem disjoint_ownPaths_iff (hf : IsRegular f) (hg : IsRegular g)
    (h : List.Disjoint (Declaration.fullNames f.1) (Declaration.fullNames g.1)) :
    List.Disjoint (SourceUnit.ownPaths f.1) (SourceUnit.ownPaths g.1) ↔
      (f.1.extendees ≠ [] → g.1.extendees ≠ [] →
        Text.fileStem f.1.name ≠ Text.fileStem g.1.name) := by
  have htypes := hf.disjoint_filePaths hg h
  have hleft : List.Disjoint
      (SourceUnit.registrationPaths (Text.fileStem f.1.name) f.1) (Declaration.filePaths g.1) := by
    intro path hpath hclass
    obtain ⟨-, rfl⟩ := SourceUnit.mem_registrationPaths.mp hpath
    exact hg.registrations_not_mem_filePaths _ hclass
  have hright : List.Disjoint (Declaration.filePaths f.1)
      (SourceUnit.registrationPaths (Text.fileStem g.1.name) g.1) := by
    intro path hclass hpath
    obtain ⟨-, rfl⟩ := SourceUnit.mem_registrationPaths.mp hpath
    exact hf.registrations_not_mem_filePaths _ hclass
  rw [SourceUnit.ownPaths, SourceUnit.ownPaths, SourceUnit.unitPaths, SourceUnit.unitPaths,
    List.disjoint_append_left, List.disjoint_append_right, List.disjoint_append_right]
  constructor
  · rintro ⟨-, -, hboth⟩ hextends hextends' hstem
    refine hboth (SourceUnit.mem_registrationPaths.mpr ⟨hextends, rfl⟩)
      (SourceUnit.mem_registrationPaths.mpr ⟨hextends', ?_⟩)
    rw [hstem]
  · intro hstems
    refine ⟨⟨htypes, hright⟩, hleft, fun path hpath hpath' => ?_⟩
    obtain ⟨hextends, rfl⟩ := SourceUnit.mem_registrationPaths.mp hpath
    obtain ⟨hextends', heq⟩ := SourceUnit.mem_registrationPaths.mp hpath'
    exact hstems hextends hextends' ((String.append_left_inj _).mp heq)

theorem disjoint_fileTitles_left (hf : IsRegular f) (hmulti : f.2.multifile = true)
    {titles : List String} :
    List.Disjoint (fileTitles f.1 f.2) titles ↔
      List.Disjoint (SourceUnit.ownPaths f.1) titles := by
  simp only [List.disjoint_left, fileTitles, hmulti, if_true, List.mem_eraseDups,
    hf.namespaceFor_eq, SourceUnit.ownPaths]

/-- Two schemas with different types have titles of their own if they are apart. -/
theorem disjoint_fileTitles_iff (hf : IsRegular f) (hg : IsRegular g)
    (h : List.Disjoint (Declaration.fullNames f.1) (Declaration.fullNames g.1)) :
    List.Disjoint (fileTitles f.1 f.2) (fileTitles g.1 g.2) ↔ Apart f g := by
  rw [Apart]
  cases hmode : f.2.multifile with
  | false =>
    rw [if_neg Bool.false_ne_true, fileTitles_single hmode, List.singleton_disjoint]
    cases hmode' : g.2.multifile with
    | false => rw [if_neg Bool.false_ne_true, fileTitles_single hmode', List.mem_singleton]
    | true =>
      rw [if_pos rfl, ← List.disjoint_singleton, hg.disjoint_fileTitles_left hmode',
        List.disjoint_singleton]
  | true =>
    rw [if_pos rfl, hf.disjoint_fileTitles_left hmode]
    cases hmode' : g.2.multifile with
    | false => rw [if_neg Bool.false_ne_true, fileTitles_single hmode', List.disjoint_singleton]
    | true =>
      rw [if_pos rfl, List.disjoint_comm, hg.disjoint_fileTitles_left hmode', List.disjoint_comm,
        hf.disjoint_ownPaths_iff hg h]

/-- The directories on the way to the files of a schema have plain names. -/
theorem directories_of_mem_fileTitles (hf : IsRegular f) (hname : Text.EndsInName f.1.name) :
    ∀ title ∈ fileTitles f.1 f.2, ∀ n ∈ (namesOf title).dropLast, Namespace.IsPlain n := by
  have hslash := Text.no_slash_fileStem hname
  cases hmode : f.2.multifile with
  | false =>
    rw [fileTitles_single hmode, List.forall_mem_singleton, namesOf_of_no_slash hslash]
    exact nofun
  | true =>
    rw [forall_fileTitles_multi hmode (p := fun t => ∀ n ∈ (namesOf t).dropLast, _),
      hf.namespaceFor_eq]
    refine ⟨fun d hd n hn => ?_, fun _ => ?_⟩
    · rw [hf.namesOf_filePath hd] at hn
      exact (hf.segments_plain hd n (List.dropLast_subset _ hn)).1
    · rw [namesOf_of_no_slash (by simp [hslash])]
      exact nofun

end IsRegular

/-- The default suffix puts the dot into the last name. -/
theorem isTidy_append_suffix {title : String}
    (h : ∀ n ∈ (namesOf title).dropLast, Namespace.IsPlain n) : IsTidy (title ++ ".php") where
  directory n hn := by
    rw [namesOf_append _ (by decide), List.dropLast_concat] at hn
    exact ⟨(h n hn).1, (h n hn).2.1⟩
  dot := by
    rw [lastName_append _ (by decide), String.toList_append]
    exact List.mem_append_right _ (by decide)
  endsInName := by
    rw [Text.EndsInName, lastName_append _ (by decide)]
    exact ⟨append_ne_of_mem _ (c := 'p') (by decide) (by decide),
      append_ne_of_mem _ (c := 'p') (by decide) (by decide),
      append_ne_of_mem _ (c := 'p') (by decide) (by decide)⟩

section

variable {t : PackageTable} {date : Option Timestamp} {files : List (File × Options)}
  {output : Output} (hregular : ∀ f ∈ files, IsRegular f)
  (h : generateFiles t date files = .ok output)

include hregular h

/-- Without overrides all names end in the default suffix. -/
theorem map_name_of_isRegular :
    output.files.map GeneratedFile.name =
      (files.flatMap fun f => fileTitles f.1 f.2).map (· ++ ".php") := by
  rw [map_name_generateFiles h, List.map_flatMap]
  refine List.flatMap_congr fun f hf => ?_
  rw [(hregular f hf).options.suffixText_eq]

/-- The files of a run have different names if every two of its schemas are apart. -/
theorem nodup_names_iff (htypes : (files.flatMap fun f => Declaration.fullNames f.1).Nodup) :
    (output.files.map GeneratedFile.name).Nodup ↔ files.Pairwise Apart := by
  have hdisjoint := (List.nodup_flatMap.mp htypes).2
  have htitles : (output.files.map GeneratedFile.name).Nodup ↔
      (files.flatMap fun f => fileTitles f.1 f.2).Nodup := by
    rw [map_name_of_isRegular hregular h]
    exact ⟨List.Nodup.of_map _, fun hn => Assembly.nodup_map_append hn _⟩
  -- No schema clashes with itself, so only pairs of schemas are left.
  have hown : ∀ f ∈ files, (fileTitles f.1 f.2).Nodup := fun f _ => nodup_fileTitles f.1 f.2
  rw [htitles, List.nodup_flatMap, and_iff_right hown]
  constructor
  · intro hpairs
    refine (hpairs.and hdisjoint).imp_of_mem fun hf hg hfg => ?_
    exact ((hregular _ hf).disjoint_fileTitles_iff (hregular _ hg) hfg.2).mp hfg.1
  · intro hapart
    refine (hapart.and hdisjoint).imp_of_mem fun hf hg hfg => ?_
    exact ((hregular _ hf).disjoint_fileTitles_iff (hregular _ hg) hfg.2).mpr hfg.1

/-- The files of schemas whose names are those of files have tidy names. -/
theorem isTidy_of_isRegular (hnames : ∀ f ∈ files, Text.EndsInName f.1.name) :
    ∀ g ∈ output.files, IsTidy g.name := by
  rw [← List.forall_mem_map (f := GeneratedFile.name), map_name_of_isRegular hregular h,
    List.forall_mem_map]
  intro title htitle
  obtain ⟨f, hf, htitle⟩ := List.mem_flatMap.mp htitle
  exact isTidy_append_suffix
    ((hregular f hf).directories_of_mem_fileTitles (hnames f hf) title htitle)

end

/-- Of the files of a run none is lost if no two of its schemas clash, and only then do all of them
have different names.  Each of them is found under its name.  If the schemas are named like files, then
below any directory, wherever it is, the files have places of their own.  If there is room below a
directory that is not outside, all of them are written there, and each of them is read back. -/
theorem generate_keeps_files {date : Option Timestamp} {files : List (File × Options)}
    {output : Output} (hregular : ∀ f ∈ files, IsRegular f)
    (htypes : (files.flatMap fun f => Declaration.fullNames f.1).Nodup)
    (h : generate date files = .ok output) :
    ((output.files.map GeneratedFile.name).Nodup ↔ files.Pairwise Apart) ∧
    (files.Pairwise Apart →
      (∀ g ∈ output.files, output.file? g.name = some g) ∧
      ((∀ f ∈ files, Text.EndsInName f.1.name) →
        (∀ directory, KeepsApart directory (output.files.map GeneratedFile.name)) ∧
        ∀ directory printed t, directory ≠ "" → StaysBelow directory →
          (∀ g ∈ output.files, WithinLimits (joinPath directory g.name)) →
          (∀ g ∈ output.files, HasRoom t (joinPath directory g.name)) →
          ∃ t', writeFiles directory printed output.files t = (.success printed, t') ∧
            ∀ g ∈ output.files, ∀ stdin,
              t'.read? stdin (joinPath directory g.name) = some (Wire.encodeText g.content))) := by
  have hiff := nodup_names_iff hregular h htypes
  refine ⟨hiff, fun hapart => ⟨fun g hg => ?_, ?_⟩⟩
  · exact Grouping.find?_of_nodup (hiff.mpr hapart) hg
  · intro hnames
    have htidy := isTidy_of_isRegular hregular h hnames
    refine ⟨fun directory => ?_, fun directory printed t hne hdirectory hlimits hroom => ?_⟩
    · exact keepsApart_of_isTidy directory (List.forall_mem_map.mpr htidy) (hiff.mpr hapart)
    · exact writeFiles_of_isTidy hne hdirectory printed htidy (hiff.mpr hapart) hlimits hroom

theorem exists_named_generate (date : Option Timestamp) (files : List (File × Options))
    (h : ∀ f ∈ files, ∀ r ∈ f.1.references, Reference.isQualified r = true) :
    ∃ output, generate date files = .ok output ∧
      output.files.map GeneratedFile.name =
        files.flatMap fun f => (fileTitles f.1 f.2).map (· ++ f.2.suffixText) := by
  obtain ⟨output, hrun⟩ := exists_generateFiles_ok (.ofFiles files) date files h
  exact ⟨output, hrun, map_name_generateFiles hrun⟩

/-- One file, the files of two classes and registrations are written below one directory, and would have
places of their own below one outside. -/
theorem generate_keeps_files_mixed_modes :
    let files : List (File × Options) :=
      [({ name := "shop/order.proto", package := "shop", enums := [{ name := "State" }] }, {}),
        ({ name := "shop/v1/order.proto", package := "shop"
           messages := [{ name := "Order", enums := [{ name := "State" }] }]
           extensions := [{ name := "note", extendee := some ".shop.Order" }] },
          { multifile := true })]
    ∃ output, generate none files = .ok output ∧
      output.files.map GeneratedFile.name =
        ["order.php", "shop/Order/State.php", "shop/Order.php", "order-extensions.php"] ∧
      KeepsApart "/srv/../gen" (output.files.map GeneratedFile.name) ∧
      ∃ t', writeFiles "out" [] output.files {} = (.success [], t') ∧
        ∀ g ∈ output.files, output.file? g.name = some g ∧
          t'.read? [] (joinPath "out" g.name) = some (Wire.encodeText g.content) := by
  intro files
  obtain ⟨output, hrun, hnames⟩ := exists_named_generate none files (by decide)
  have hnames : output.files.map GeneratedFile.name =
      ["order.php", "shop/Order/State.php", "shop/Order.php", "order-extensions.php"] :=
    hnames.trans (by decide)
  have hlimits : ∀ name ∈ output.files.map GeneratedFile.name,
      WithinLimits (joinPath "out" name) := by
    rw [hnames]
    decide
  obtain ⟨-, hkept⟩ := generate_keeps_files (by decide) (by decide) hrun
  obtain ⟨hfound, hwritten⟩ := hkept (by decide)
  obtain ⟨houtside, hinside⟩ := hwritten (by decide)
  obtain ⟨t', hwrite, hread⟩ := hinside "out" [] {} (by decide) (by decide)
    (fun g hg => hlimits g.name (List.mem_map_of_mem hg)) (fun g _ => hasRoom_empty _)
  exact ⟨output, hrun, hnames, houtside _, t', hwrite,
    fun g hg => ⟨hfound g hg, hread g hg []⟩⟩

/-- Schemas with names and types of their own that override nothing. -/
def AreDistinct (files : List (File × Options)) : Prop :=
  (files.map fun f => f.1.name).Nodup ∧
    (∀ f ∈ files, f.1.name ≠ "" ∧ f.2.OverridesNothing ∧
      ∀ d ∈ Declaration.ofFile f.1, Text.isIdentifier d.name = true) ∧
    (files.flatMap fun f => Declaration.fullNames f.1).Nodup

instance (files : List (File × Options)) : Decidable (AreDistinct files) :=
  inferInstanceAs (Decidable ((files.map fun f => f.1.name).Nodup ∧
    (∀ f ∈ files, f.1.name ≠ "" ∧ f.2.OverridesNothing ∧
      ∀ d ∈ Declaration.ofFile f.1, Text.isIdentifier d.name = true) ∧
    (files.flatMap fun f => Declaration.fullNames f.1).Nodup))

/-- Two schemas lose a file if they have the same stem, with one file each or with registrations each,
if the stem of one is the path of a class or of the registrations of the other, or if their packages
differ in dots alone.  Files with different names may have one place if their schemas are not named
like files. -/
theorem generate_loses_files :
    let clash (files : List (File × Options)) (name : String) : Prop :=
      AreDistinct files ∧ ∃ output, generate none files = .ok output ∧
        output.files.map GeneratedFile.name = [name, name] ∧
        ¬ (output.files.map GeneratedFile.name).Nodup
    let multi : Options := { multifile := true }
    let extensions : List Field := [{ name := "note", extendee := some ".M" }]
    clash [({ name := "a/x.proto", package := "a", enums := [{ name := "E" }] }, {}),
      ({ name := "b/x.proto", package := "b", enums := [{ name := "F" }] }, {})] "x.php" ∧
    clash [({ name := "a/x.proto", extensions }, multi), ({ name := "b/x.proto", extensions }, multi)]
      "x-extensions.php" ∧
    clash [({ name := "E.proto" }, {}), ({ name := "x.proto", enums := [{ name := "E" }] }, multi)]
      "E.php" ∧
    clash [({ name := "x-extensions.proto" }, {}), ({ name := "x.proto", extensions }, multi)]
      "x-extensions.php" ∧
    clash [({ name := "x.proto", package := "a.b", enums := [{ name := "E" }] }, multi),
      ({ name := "y.proto", package := "a..b", enums := [{ name := "E" }] }, multi)] "a/b/E.php" ∧
    AreDistinct [({ name := "./" }, {}), ({ name := "././" }, {})] ∧
      (∃ output, generate none [({ name := "./" }, {}), ({ name := "././" }, {})] = .ok output ∧
        output.files.map GeneratedFile.name = ["./.php", "././.php"]) ∧
      placeOf (joinPath "out" "./.php") = placeOf (joinPath "out" "././.php") := by
  intro clash multi extensions
  have hclash : ∀ files name, AreDistinct files →
      (∀ f ∈ files, ∀ r ∈ f.1.references, Reference.isQualified r = true) →
      (files.flatMap fun f => (fileTitles f.1 f.2).map (· ++ f.2.suffixText)) = [name, name] →
      clash files name := by
    intro files name hdistinct hreferences hnames
    obtain ⟨output, hrun, hnames'⟩ := exists_named_generate none files hreferences
    refine ⟨hdistinct, output, hrun, hnames'.trans hnames, ?_⟩
    rw [hnames', hnames]
    simp
  refine ⟨hclash _ _ (by decide) (by decide) (by decide),
    hclash _ _ (by decide) (by decide) (by decide), hclash _ _ (by decide) (by decide) (by decide),
    hclash _ _ (by decide) (by decide) (by decide), hclash _ _ (by decide) (by decide) (by decide),
    by decide, ?_, by decide⟩
  obtain ⟨output, hrun, hnames⟩ :=
    exists_named_generate none [({ name := "./" }, {}), ({ name := "././" }, {})] (by decide)
  exact ⟨output, hrun, hnames.trans (by decide)⟩

end ProtoPhp
