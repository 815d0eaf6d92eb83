/-
The names of generated files.

A generated file is named by the stem of its schema or by the class that it
holds, and its name ends in a suffix.  So the names can be told from the schema
and its options alone.  They lie below the output directory, unless the written
namespace starts with a slash or a stem and the suffix are dots.

* `SourceUnit.map_path_resolved` — the paths of the units of a schema file;
* `map_name_generateFile`, `map_name_generateFiles` — the names of the generated files;
* `generateFile_stays_below` — when all of them lie below the output directory.
-/
import ProtoPhp.Proofs.Assembly
import ProtoPhp.Proofs.Namespace.Parsing
import ProtoPhp.Proofs.Run
import ProtoPhp.Proofs.Text.FileStem
import ProtoPhp.Proofs.Text.Identifier

namespace ProtoPhp

open Descriptor

open Command Command.FileTree

namespace Namespace

/-- A path starts like its first name. -/
theorem head?_filePath_cons {first : String} (h : first ≠ "") (rest : List String) :
    (filePath ⟨first :: rest⟩).toList.head? = first.toList.head? := by
  have hfirst : first.toList ≠ [] := by simpa using h
  by_cases hrest : rest = []
  · rw [hrest, filePath, String.intercalate_singleton]
  · rw [filePath, String.intercalate_cons_of_ne_nil hrest, String.append_assoc, String.toList_append,
      List.head?_append_of_ne_nil _ hfirst]

/-- A path of identifiers does not start with a slash. -/
theorem head?_filePath_ne_slash {ns : Namespace}
    (h : ∀ s ∈ ns.segments, Text.isIdentifier s = true) :
    ns.filePath.toList.head? ≠ some '/' := by
  obtain ⟨segments⟩ := ns
  cases segments with
  | nil => exact nofun
  | cons first rest =>
    have hfirst := h first List.mem_cons_self
    rw [head?_filePath_cons (Text.ne_empty_of_isIdentifier hfirst)]
    exact fun e => Text.not_mem_of_isIdentifier hfirst rfl (List.mem_of_head? e)

/-- The path of plain names has no dot. -/
theorem no_dot_filePath {ns : Namespace} (h : ∀ s ∈ ns.segments, IsPlain s) :
    '.' ∉ ns.filePath.toList := by
  intro hdot
  rcases Text.mem_intercalate hdot with hsep | ⟨s, hs, hc⟩
  · exact absurd hsep (by decide)
  · exact (h s hs).2.1 hc

end Namespace

/-- The path of the class of a declaration in a file whose types live in `ns`. -/
def Declaration.filePath (ns : Namespace) (d : Declaration) : String := (ns.join ⟨d.path⟩).filePath

namespace SourceUnit

/-- The path of the unit that registers the extensions of a file, if there are any. -/
def registrationPaths (stem : String) (file : File) : List String :=
  if file.extendees = [] then [] else [stem ++ "-extensions"]

/-- The paths of the units of a file whose types live in `ns`. -/
def unitPaths (ns : Namespace) (stem : String) (file : File) : List String :=
  (Declaration.ofFile file).map (Declaration.filePath ns) ++ registrationPaths stem file

theorem mem_registrationPaths {stem path : String} {file : File} :
    path ∈ registrationPaths stem file ↔ file.extendees ≠ [] ∧ path = stem ++ "-extensions" := by
  by_cases h : file.extendees = [] <;> simp [registrationPaths, h]

/-- The paths of the units are known without the table. -/
theorem map_path_resolved (t : PackageTable) (ns : Namespace) (stem : String) (file : File) :
    (resolved t ns stem file).map path = unitPaths ns stem file := by
  have htypes : ∀ d, path (ofDeclaration t ns d) = Declaration.filePath ns d := fun d =>
    congrArg Namespace.filePath (className_ofDeclaration t ns d)
  have hregistrations :
      (ofRegistrations t ns stem file).map path = registrationPaths stem file := by
    rw [ofRegistrations, registrationPaths]
    by_cases h : file.extendees = []
    · rw [if_pos h, if_pos h, List.map_nil]
    · rw [if_neg h, if_neg h, List.map_singleton]
      exact congrArg (fun p => [p]) (String.intercalate_singleton (s := "/"))
  rw [resolved, List.map_append, List.map_map, hregistrations, unitPaths]
  exact congrArg (· ++ _) (List.map_congr_left fun d _ => htypes d)

end SourceUnit

/-- The names of the generated files of a schema, without their suffix. -/
def fileTitles (file : File) (options : Options) : List String :=
  if options.multifile then
    (SourceUnit.unitPaths (options.namespaceFor file.package) (Text.fileStem file.name)
      file).eraseDups
  else [Text.fileStem file.name]

theorem nodup_fileTitles (file : File) (options : Options) : (fileTitles file options).Nodup := by
  rw [fileTitles]
  split
  · rw [← List.map_id (SourceUnit.unitPaths _ _ _)]
    exact Grouping.nodup_eraseDups_map id _
  · simp

/-- The names of the generated files of a schema. -/
theorem map_name_generateFile {t : PackageTable} {date : Option Timestamp} {file : File}
    {options : Options} {output : Output} (h : generateFile t date file options = .ok output) :
    output.files.map GeneratedFile.name =
      (fileTitles file options).map (· ++ options.suffixText) := by
  obtain ⟨-, rfl⟩ := generateFile_eq_ok_iff.mp h
  rw [Assembly.files, List.map_map, fileTitles]
  cases options.multifile with
  | false => rfl
  | true =>
    rw [Assembly.parts_multi, SourceUnit.map_path_resolved, List.map_map]
    rfl

/-- A schema with fully qualified references is generated, into files with these names. -/
theorem exists_named_generateFile (t : PackageTable) (date : Option Timestamp) (file : File)
    (options : Options) (h : ∀ r ∈ file.references, Reference.isQualified r = true) :
    ∃ output, generateFile t date file options = .ok output ∧
      output.files.map GeneratedFile.name =
        (fileTitles file options).map (· ++ options.suffixText) := by
  obtain ⟨output, hrun⟩ : ∃ output, generateFile t date file options = .ok output :=
    ⟨_, generateFile_eq_ok_iff.mpr ⟨h, rfl⟩⟩
  exact ⟨output, hrun, map_name_generateFile hrun⟩

/-- The names of the generated files of a run. -/
theorem map_name_generateFiles {t : PackageTable} {date : Option Timestamp}
    {files : List (File × Options)} {output : Output}
    (h : generateFiles t date files = .ok output) :
    output.files.map GeneratedFile.name =
      files.flatMap fun f => (fileTitles f.1 f.2).map (· ++ f.2.suffixText) := by
  induction files generalizing output with
  | nil =>
    cases h
    rfl
  | cons f fs ih =>
    rw [generateFiles_cons] at h
    obtain ⟨first, hfirst, h⟩ := bind_eq_ok.mp h
    obtain ⟨rest, hrest, h⟩ := bind_eq_ok.mp h
    cases h
    rw [Output.files_append, List.map_append, map_name_generateFile hfirst, ih hrest,
      List.flatMap_cons]

theorem forall_name_generateFile {t : PackageTable} {date : Option Timestamp} {file : File}
    {options : Options} {output : Output} (h : generateFile t date file options = .ok output)
    {p : String → Prop} :
    (∀ g ∈ output.files, p g.name) ↔
      ∀ title ∈ fileTitles file options, p (title ++ options.suffixText) := by
  rw [← List.forall_mem_map (f := GeneratedFile.name), map_name_generateFile h, List.forall_mem_map]

/-- What holds of the class paths and of the path of the registrations holds of all titles of a
schema with files for each class. -/
theorem forall_fileTitles_multi {file : File} {options : Options}
    (hmulti : options.multifile = true) {p : String → Prop} :
    (∀ title ∈ fileTitles file options, p title) ↔
      (∀ d ∈ Declaration.ofFile file, p (d.filePath (options.namespaceFor file.package))) ∧
        (file.extendees ≠ [] → p (Text.fileStem file.name ++ "-extensions")) := by
  simp only [fileTitles, hmulti, if_true, List.mem_eraseDups, SourceUnit.unitPaths, List.mem_append,
    or_imp, forall_and, List.forall_mem_map, SourceUnit.mem_registrationPaths, and_imp,
    forall_eq_apply_imp_iff]

/-- The title of a schema with one file. -/
theorem fileTitles_single {file : File} {options : Options} (hsingle : options.multifile = false) :
    fileTitles file options = [Text.fileStem file.name] := by
  rw [fileTitles, hsingle]
  rfl

/-! ### Names below the output directory -/

theorem mem_toList_of_mem_namesOf {path name : String} (h : name ∈ namesOf path) {c : Char}
    (hc : c ∈ name.toList) : c ∈ path.toList := by
  rw [← intercalate_namesOf path]
  exact Text.mem_intercalate_of_mem h hc

/-- A single name stays below unless it leads up. -/
theorem staysBelow_iff_of_no_slash {name : String} (h : '/' ∉ name.toList) :
    StaysBelow name ↔ name ≠ ".." := by
  have hhead : name.toList.head? ≠ some '/' := fun e => h (List.mem_of_head? e)
  rw [StaysBelow, namesOf_of_no_slash h, List.mem_singleton]
  exact ⟨fun hs e => hs.2 e.symm, fun hne => ⟨hhead, fun e => hne e.symm⟩⟩

namespace Declaration

variable {d : Declaration} {ns : Namespace}

/-- The name of a class ends its path. -/
theorem lastName_filePath (ns : Namespace) (h : Text.isIdentifier d.name = true) :
    lastName (d.filePath ns) = d.name := by
  rw [filePath, Namespace.join, path, ← List.append_assoc]
  exact lastName_intercalate _ (Text.not_mem_of_isIdentifier h rfl)

theorem filePath_ne_empty (ns : Namespace) (h : Text.isIdentifier d.name = true) :
    d.filePath ns ≠ "" := by
  intro e
  have hlast := lastName_filePath ns h
  rw [e] at hlast
  exact Text.ne_empty_of_isIdentifier h hlast.symm

/-- No class has the path of registrations. -/
theorem filePath_ne_registrations (ns : Namespace) (h : Text.isIdentifier d.name = true)
    (stem : String) : d.filePath ns ≠ stem ++ "-extensions" := by
  intro hpath
  have hlast := lastName_filePath ns h
  -- The name of the class would have a hyphen.
  rw [hpath, lastName_append _ (by decide)] at hlast
  refine Text.not_mem_of_isIdentifier h (c := '-') rfl ?_
  rw [← hlast, String.toList_append]
  exact List.mem_append_right _ (by decide)

/-- The path of a class starts with a slash if that of the namespace does. -/
theorem head?_filePath_iff (hns : ∀ s ∈ ns.segments, Namespace.IsPlain s)
    (hpath : ∀ n ∈ d.path, Text.isIdentifier n = true) :
    (d.filePath ns).toList.head? = some '/' ↔ ns.filePath.toList.head? = some '/' := by
  obtain ⟨segments⟩ := ns
  cases segments with
  | nil =>
    refine iff_of_false ?_ (by decide)
    rw [filePath, Namespace.join, List.nil_append]
    exact Namespace.head?_filePath_ne_slash hpath
  | cons first rest =>
    have hfirst := (hns first List.mem_cons_self).1
    rw [filePath, Namespace.join, List.cons_append, Namespace.head?_filePath_cons hfirst,
      Namespace.head?_filePath_cons hfirst]

/-- No name in the path of the file of a class leads up. -/
theorem not_mem_namesOf_filePath (hns : ∀ s ∈ ns.segments, Namespace.IsPlain s)
    (hpath : ∀ n ∈ d.path, Text.isIdentifier n = true) {suffix : String}
    (hsuffix : '/' ∉ suffix.toList) : ".." ∉ namesOf (d.filePath ns ++ suffix) := by
  have hname := hpath d.name d.name_mem_path
  have hdot : '.' ∉ (d.filePath ns).toList := by
    refine Namespace.no_dot_filePath fun s hs => ?_
    rcases List.mem_append.mp hs with hs | hs
    · exact hns s hs
    · exact Text.isPlain_of_isIdentifier (hpath s hs)
  rw [namesOf_append _ hsuffix, lastName_filePath ns hname, List.mem_append, List.mem_singleton]
  rintro (h | h)
  · exact hdot (mem_toList_of_mem_namesOf (List.dropLast_subset _ h) (by decide))
  · -- The last name starts with the first letter of the class.
    have hc := congrArg (fun s => s.toList.head?) h
    have hne : d.name.toList ≠ [] := by simpa using Text.ne_empty_of_isIdentifier hname
    simp only [String.toList_append, List.head?_append_of_ne_nil _ hne] at hc
    exact Text.not_mem_of_isIdentifier hname rfl (List.mem_of_head? hc.symm)

/-- The file of a class stays below unless the namespace starts with a slash. -/
theorem staysBelow_filePath_iff (hns : ∀ s ∈ ns.segments, Namespace.IsPlain s)
    (hpath : ∀ n ∈ d.path, Text.isIdentifier n = true) {suffix : String}
    (hsuffix : '/' ∉ suffix.toList) :
    StaysBelow (d.filePath ns ++ suffix) ↔ ns.filePath.toList.head? ≠ some '/' := by
  have hname := hpath d.name d.name_mem_path
  have hne : (d.filePath ns).toList ≠ [] := by simpa using filePath_ne_empty ns hname
  rw [StaysBelow, String.toList_append, List.head?_append_of_ne_nil _ hne, Ne,
    head?_filePath_iff hns hpath]
  exact and_iff_left (not_mem_namesOf_filePath hns hpath hsuffix)

end Declaration

/-- Neither a namespace nor a package nor a suffix is given. -/
def Options.OverridesNothing (o : Options) : Prop :=
  o.namespaceText = none ∧ o.package = none ∧ o.suffix = none

instance (o : Options) : Decidable o.OverridesNothing :=
  inferInstanceAs (Decidable (o.namespaceText = none ∧ o.package = none ∧ o.suffix = none))

namespace Options

theorem OverridesNothing.suffixText_eq {o : Options} (h : o.OverridesNothing) :
    o.suffixText = ".php" := by
  rw [suffixText, h.2.2]
  rfl

theorem OverridesNothing.namespaceFor_eq {o : Options} (h : o.OverridesNothing)
    (package : String) : o.namespaceFor package = .parse package := by
  rw [namespaceFor, h.1, h.2.1]
  rfl

end Options

theorem ne_empty_of_mem_fileTitles {file : File} {options : Options}
    (hname : Text.EndsInName file.name)
    (htypes : ∀ d ∈ Declaration.ofFile file, Text.isIdentifier d.name = true) :
    ∀ title ∈ fileTitles file options, title ≠ "" := by
  have hstem := Text.fileStem_ne_empty hname
  cases hmode : options.multifile with
  | false =>
    rw [fileTitles_single hmode]
    simpa using hstem
  | true =>
    rw [forall_fileTitles_multi hmode]
    refine ⟨fun d hd => Declaration.filePath_ne_empty _ (htypes d hd), fun _ e => hstem ?_⟩
    exact (String.append_eq_empty_iff.mp e).1

theorem append_ne_of_mem (stem : String) {suffix other : String} {c : Char}
    (hc : c ∈ suffix.toList) (hother : c ∉ other.toList) : stem ++ suffix ≠ other := by
  rintro rfl
  rw [String.toList_append] at hother
  exact hother (List.mem_append_right _ hc)

/-- The names of the generated files of a schema lie below the output directory, unless its classes
have files of their own in a namespace that starts with a slash, or its stem and the suffix make two
dots.  In particular they do so where options override nothing. -/
theorem generateFile_stays_below {t : PackageTable} {date : Option Timestamp} {file : File}
    {options : Options} {output : Output} (hname : Text.EndsInName file.name)
    (htypes : ∀ d ∈ Declaration.ofFile file, Text.isIdentifier d.name = true)
    (hsuffix : '/' ∉ options.suffixText.toList)
    (h : generateFile t date file options = .ok output) :
    (∀ g ∈ output.files, g.name ≠ "") ∧
    ((∀ g ∈ output.files, StaysBelow g.name) ↔
      if options.multifile then
        Declaration.ofFile file = [] ∨
          (options.namespaceFor file.package).filePath.toList.head? ≠ some '/'
      else Text.fileStem file.name ++ options.suffixText ≠ "..") ∧
    (options.OverridesNothing →
      (∀ part ∈ (Namespace.parse file.package).segments, Text.isIdentifier part = true) →
      ∀ g ∈ output.files, StaysBelow g.name) ∧
    ∀ g ∈ output.files, StaysBelow g.name → ∀ directory,
      placeOf (joinPath directory g.name) = steps (namesOf directory) ++ placeOf g.name := by
  have hslash := Text.no_slash_fileStem hname
  have hclass : ∀ d ∈ Declaration.ofFile file,
      (StaysBelow (d.filePath (options.namespaceFor file.package) ++ options.suffixText) ↔
        (options.namespaceFor file.package).filePath.toList.head? ≠ some '/') := fun d hd =>
    Declaration.staysBelow_filePath_iff (fun s hs => Namespace.isPlain_of_mem_parse hs)
      (Declaration.forall_mem_path htypes hd) hsuffix
  have hextensions : StaysBelow (Text.fileStem file.name ++ "-extensions" ++ options.suffixText) := by
    rw [staysBelow_iff_of_no_slash (by simp [hslash, hsuffix]), String.append_assoc]
    exact append_ne_of_mem _ (c := '-') (by simp) (by decide)
  have hbelow : (∀ g ∈ output.files, StaysBelow g.name) ↔
      if options.multifile then
        Declaration.ofFile file = [] ∨
          (options.namespaceFor file.package).filePath.toList.head? ≠ some '/'
      else Text.fileStem file.name ++ options.suffixText ≠ ".." := by
    rw [forall_name_generateFile h]
    cases hmode : options.multifile with
    | false =>
      rw [fileTitles_single hmode, List.forall_mem_singleton,
        staysBelow_iff_of_no_slash (by simp [hslash, hsuffix])]
      rfl
    | true =>
      rw [forall_fileTitles_multi hmode (p := fun title => StaysBelow (title ++ _)), if_pos rfl,
        and_iff_left fun _ => hextensions, forall₂_congr hclass]
      -- The namespace only shows in the names of classes, so it is free if there are none.
      constructor
      · intro hall
        cases hdeclared : Declaration.ofFile file with
        | nil => exact .inl rfl
        | cons d rest => exact .inr (hall d (hdeclared ▸ List.mem_cons_self))
      · rintro (hnone | hns)
        · rw [hnone]
          exact nofun
        · exact fun _ _ => hns
  refine ⟨?_, hbelow, ?_, ?_⟩
  · rw [forall_name_generateFile h (p := (· ≠ ""))]
    intro title htitle e
    exact ne_empty_of_mem_fileTitles hname htypes title htitle (String.append_eq_empty_iff.mp e).1
  · intro hoptions hpackage
    rw [hbelow, hoptions.suffixText_eq, hoptions.namespaceFor_eq]
    split
    · exact .inr (Namespace.head?_filePath_ne_slash hpackage)
    · exact append_ne_of_mem _ (c := 'p') (by decide) (by decide)
  · exact fun g _ hg directory => placeOf_joinPath directory hg.1

/-- Slashes inside a written namespace make directories, and dots do not. -/
theorem generateFile_stays_below_slash_inside :
    let file : File :=
      { name := "shop/order.v1.proto", package := "shop", enums := [{ name := "State" }]
        extensions := [{ name := "note", extendee := some ".shop.Order" }] }
    let options : Options :=
      { namespaceText := some "..\\App/Core.Model", multifile := true, suffix := some "." }
    ∃ output, generateFile .empty none file options = .ok output ∧
      output.files.map GeneratedFile.name =
        ["App/Core/Model/State.", "order.v1-extensions."] ∧
      ∀ g ∈ output.files, g.name ≠ "" ∧ StaysBelow g.name := by
  intro file options
  obtain ⟨output, hrun, hnames⟩ := exists_named_generateFile .empty none file options (by decide)
  obtain ⟨hne, hbelow, -, -⟩ := generateFile_stays_below (by decide) (by decide) (by decide) hrun
  refine ⟨output, hrun, hnames.trans (by decide), fun g hg => ⟨hne g hg, ?_⟩⟩
  exact hbelow.mpr (.inr (by decide)) g hg

/-- A namespace that starts with a slash leads the files of classes out of every directory, and dots
lead the one file of a schema out of its directory. -/
theorem generateFile_leaves_directory :
    (Text.EndsInName "x.proto" ∧ ∃ output,
      generateFile .empty none { name := "x.proto", enums := [{ name := "E" }] }
        { namespaceText := some "/App", multifile := true } = .ok output ∧
      output.files.map GeneratedFile.name = ["/App/E.php"] ∧
      ¬ StaysBelow "/App/E.php" ∧ ∀ directory, joinPath directory "/App/E.php" = "/App/E.php") ∧
    Text.EndsInName "...proto" ∧ ∃ output,
      generateFile .empty none { name := "...proto" } { suffix := some "" } = .ok output ∧
      output.files.map GeneratedFile.name = [".."] ∧ ¬ StaysBelow ".." := by
  constructor
  · obtain ⟨output, hrun, hnames⟩ := exists_named_generateFile .empty none
      { name := "x.proto", enums := [{ name := "E" }] }
      { namespaceText := some "/App", multifile := true } (by decide)
    exact ⟨by decide, output, hrun, hnames.trans (by decide), by decide, fun _ => rfl⟩
  · obtain ⟨output, hrun, hnames⟩ := exists_named_generateFile .empty none
      { name := "...proto" } { suffix := some "" } (by decide)
    exact ⟨by decide, output, hrun, hnames.trans (by decide), by decide⟩

end ProtoPhp
