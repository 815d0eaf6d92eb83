/-
Where the types of a file end up.

The settings of a run and the options of a file are laid over each other.  The
namespace of a file comes from the first of `php.namespace`, the standard option,
`php.package` and the package that there is, even if it is empty.  Whether types
get files of their own, and how file names end, comes from the file if it says so,
and else from the last setting of the run for it.  What comes out of this is the
placement of the file, and no other file has a say in it.

* `Pool.placement` — the placement of a file of a pool;
* `Pool.placement_forFile` — the options of a run for one file give this placement;
* `Pool.placement_of_known`, `Pool.placement_of_unknown` — what it is where the custom
  options are known, and what is left of it where none of them is;
* `Placement.Places` — what a placement says about the generated files;
* `Pool.generate_places` — all files of a run are placed, and the table of the run agrees.
-/
import ProtoPhp.Proofs.FileNames
import ProtoPhp.Proofs.Order
import ProtoPhp.Proofs.Parameter
import ProtoPhp.Proofs.Pool.CustomOptions
import ProtoPhp.Proofs.PostOrder

namespace ProtoPhp

open Descriptor Wire

/-- Where the types of a file end up. -/
structure Placement where
  /-- The namespace of the types. -/
  scope : Namespace
  /-- Each type gets a file of its own. -/
  spread : Bool
  /-- The end of file names. -/
  suffix : String
  deriving Repr, DecidableEq, Inhabited

namespace Placement

/-- The placement that the options for a file stand for. -/
def ofOptions (o : Options) (f : File) : Placement :=
  ⟨o.namespaceFor f.package, o.multifile, o.suffixText⟩

/-- The units of a file and the files that they are put into are where a placement has them. -/
structure Puts (pl : Placement) (f : File) (types registrations : List SourceUnit)
    (files : List GeneratedFile) : Prop where
  emitted : List.Forall₂ (SourceUnit.Shows pl.scope) (Declaration.ofFile f) types
  registered : ∀ u ∈ registrations,
    u.scope = .root ∧ u.name = Text.fileStem f.name ++ "-extensions"
  together : pl.spread = false → files =
    [⟨Text.fileStem f.name ++ pl.suffix,
      openingText f.name none ++ String.join ((types ++ registrations).map SourceUnit.source)⟩]
  apart : pl.spread = true →
    let path (u : SourceUnit) : String := "/".intercalate (u.scope.segments ++ [u.name])
    files = ((types ++ registrations).map path).eraseDups.map fun p =>
      ⟨p ++ pl.suffix, openingText f.name none ++
        String.join (((types ++ registrations).filter (path · == p)).map SourceUnit.source)⟩

/-- The generated files of a file hold one unit for each of its types, and are where a placement has
them. -/
def Places (pl : Placement) (f : File) (files : List GeneratedFile) : Prop :=
  ∃ types registrations, pl.Puts f types registrations files

/-- A file is placed by the options that it is generated under. -/
theorem places_of_generateFile {t : PackageTable} {f : File} {o : Options} {output : Output}
    (h : generateFile t none f o = .ok output) : (ofOptions o f).Places f output.files := by
  obtain ⟨-, rfl⟩ := generateFile_eq_ok_iff.mp h
  refine ⟨(Declaration.ofFile f).map (SourceUnit.ofDeclaration t (o.namespaceFor f.package)),
    SourceUnit.ofRegistrations t (o.namespaceFor f.package) (Text.fileStem f.name) f, ?_⟩
  constructor
  case emitted =>
    rw [List.forall₂_map_right_iff, List.forall₂_same]
    exact fun d _ => SourceUnit.shows_ofDeclaration t _ d
  case registered =>
    intro u hu
    rcases SourceUnit.ofRegistrations_cases t (o.namespaceFor f.package) (Text.fileStem f.name) f with
      ⟨hnil, -⟩ | ⟨v, hone, -, hscope, hname⟩
    · rw [hnil] at hu
      cases hu
    · rw [hone, List.mem_singleton] at hu
      rw [hu]
      exact ⟨hscope, hname⟩
  -- Both ways of writing are those of the options, once their mode is known.
  case together =>
    obtain ⟨package, namespaceText, multifile, suffix⟩ := o
    rintro (rfl : multifile = false)
    exact Assembly.files_single _ _ ⟨package, namespaceText, false, suffix⟩ _
  case apart =>
    obtain ⟨package, namespaceText, multifile, suffix⟩ := o
    rintro (rfl : multifile = true)
    exact Assembly.files_multi _ _ ⟨package, namespaceText, true, suffix⟩ _

end Placement

namespace Pool

/-- The placement of a file of a pool under the settings of a run. -/
def placement (p : Pool) (settings : List Setting) (f : File) : Placement where
  scope := .parse ((p.textOption? f "php.namespace" <|> f.phpNamespace <|>
    p.textOption? f "php.package").getD f.package)
  spread := (p.boolOption? f "php.multifile" <|>
    (settings.filterMap Setting.multifile?).getLast?) == some true
  suffix := ((p.textOption? f "php.suffix").filter (· ≠ "") <|>
    (settings.filterMap Setting.suffix?).getLast?).getD ".php"

/-- The options of a run for one file of a pool give its placement. -/
theorem placement_forFile (p : Pool) (settings : List Setting) (f : File) :
    Placement.ofOptions ((Options.override {} settings).forFile p f) f = p.placement settings f := by
  have hstandard : ((Options.override {} settings).withStandard f).namespaceText =
      f.phpNamespace := by
    rw [Options.withStandard]
    cases f.phpNamespace <;> rfl
  have hspread : ∀ own run : Option Bool,
      own.getD (run.getD false) = ((own <|> run) == some true) := by
    rintro (_ | _ | _) (_ | _ | _) <;> rfl
  rw [Placement.ofOptions, placement, Placement.mk.injEq]
  refine ⟨?_, hspread _ _, ?_⟩
  · rw [Options.namespaceFor, Options.forFile, hstandard]
    show Namespace.parse _ = Namespace.parse _
    cases p.textOption? f "php.namespace" <;> cases f.phpNamespace <;>
      cases p.textOption? f "php.package" <;> rfl
  · rw [Options.suffixText, Options.forFile, Options.suffixOption?]
    show Option.getD (_ <|> ((settings.filterMap Setting.suffix?).getLast? <|> none)) ".php" = _
    simp

/-- A pool knows the custom options that place a file. -/
structure KnowsPlacement (p : Pool) (package scope spread suffix : Typed.Field) : Prop where
  package : p.KnowsOption "php.package" package
  scope : p.KnowsOption "php.namespace" scope
  spread : p.KnowsOption "php.multifile" spread
  suffix : p.KnowsOption "php.suffix" suffix

/-- In a pool that knows the custom options, the last values that a file writes for them place it. -/
theorem placement_of_known {p : Pool} {package scope spread suffix : Typed.Field}
    (h : p.KnowsPlacement package scope spread suffix) {f : File}
    {values : List (Nat × Typed.Scalar)} (hvalues : p.WritesOptions f values)
    (settings : List Setting) :
    let text? (o : Typed.Field) := (Typed.lastValue values o.number).bind Typed.Scalar.text?
    let bool? (o : Typed.Field) := (Typed.lastValue values o.number).bind Typed.Scalar.bool?
    p.placement settings f =
      { scope := .parse ((text? scope <|> f.phpNamespace <|> text? package).getD f.package)
        spread := (bool? spread <|> (settings.filterMap Setting.multifile?).getLast?) == some true
        suffix := ((text? suffix).filter (· ≠ "") <|>
          (settings.filterMap Setting.suffix?).getLast?).getD ".php" } := by
  rw [placement, h.scope.textOption?_eq hvalues, h.package.textOption?_eq hvalues,
    h.spread.boolOption?_eq hvalues, h.suffix.textOption?_eq hvalues]

/-- In a pool that knows none of the custom options, the standard option and the settings place a
file. -/
theorem placement_of_unknown {p : Pool}
    (h : ∀ name ∈ ["php.namespace", "php.package", "php.multifile", "php.suffix"],
      (p.find? name).bind Definition.extension? = none) (settings : List Setting) (f : File) :
    p.placement settings f =
      { scope := .parse (f.phpNamespace.getD f.package)
        spread := (settings.filterMap Setting.multifile?).getLast? == some true
        suffix := (settings.filterMap Setting.suffix?).getLast?.getD ".php" } := by
  have htext : ∀ name ∈ ["php.namespace", "php.package", "php.multifile", "php.suffix"],
      p.textOption? f name = none := fun name hname => by
    rw [textOption?, option?_eq_none (h name hname)]
  have hbool : p.boolOption? f "php.multifile" = none := by
    rw [boolOption?, option?_eq_none (h _ (by simp))]
  rw [placement, htext _ (by simp), htext _ (by simp), htext _ (by simp), hbool]
  simp

/-- Pools that differ in the options of other files place a file alike. -/
theorem DiffersInOptions.forFile_eq {p q : Pool} (h : p.DiffersInOptions q) (o : Options) (f : File) :
    o.forFile q f = o.forFile p f := by
  simp only [Options.forFile, Options.suffixOption?, h.textOption?_eq, h.boolOption?_eq]

theorem DiffersInOptions.placement_eq {p q : Pool} (h : p.DiffersInOptions q)
    (settings : List Setting) (f : File) : q.placement settings f = p.placement settings f := by
  rw [← placement_forFile, h.forFile_eq, placement_forFile]

/-- The table of a pool has the namespace in which the last file of each package is placed. -/
theorem get?_table (p : Pool) (settings : List Setting) (package : String) :
    (p.table (Options.override {} settings)).get? package =
      (p.files.filter (·.package == package)).getLast?.map fun f =>
        (p.placement settings f).scope := by
  rw [table, PackageTable.get?_ofFiles_eq, filesOf, withOptions, List.filter_map, List.getLast?_map,
    Option.map_map]
  refine Option.map_congr fun f hf => ?_
  have hpackage : f.package = package :=
    eq_of_beq (List.mem_filter.mp (List.mem_of_getLast? hf)).2
  rw [← placement_forFile, ← hpackage]
  rfl

/-- A generated file of a pool is in the pool and has its placement. -/
theorem places_of_generateNamed {p : Pool} {settings : List Setting} {name : String}
    {output : Output} (h : p.generateNamed (Options.override {} settings) name = .ok output) :
    ∃ f, p.file? name = some f ∧
      generateFile (p.table (Options.override {} settings)) none f
        ((Options.override {} settings).forFile p f) = .ok output ∧
      (p.placement settings f).Places f output.files := by
  rw [generateNamed_eq] at h
  cases hf : p.file? name with
  | none =>
    rw [hf] at h
    cases h
  | some f =>
    rw [hf] at h
    refine ⟨f, rfl, h, ?_⟩
    rw [← placement_forFile]
    exact Placement.places_of_generateFile h

/-- A file of a pool with fully qualified references is generated. -/
theorem exists_generateNamed_ok {p : Pool} {name : String} {f : File} (hf : p.file? name = some f)
    (h : ∀ r ∈ f.references, Reference.isQualified r = true) (defaults : Options) :
    ∃ output, p.generateNamed defaults name = .ok output := by
  rw [generateNamed_eq, hf]
  exact ⟨_, generateFile_eq_ok_iff.mpr ⟨h, rfl⟩⟩

/-- A generated file of a pool is generated, with files of the same names and in the same place, when
the options of other files are different. -/
theorem DiffersInOptions.exists_generateNamed {p q : Pool} (h : p.DiffersInOptions q)
    {settings : List Setting} {name : String} {f : File} {output : Output}
    (hf : p.file? name = some f) (hf' : q.file? name = some f)
    (hrun : p.generateNamed (Options.override {} settings) name = .ok output) :
    ∃ output', q.generateNamed (Options.override {} settings) name = .ok output' ∧
      (p.placement settings f).Places f output'.files ∧
      output'.files.map GeneratedFile.name = output.files.map GeneratedFile.name := by
  rw [generateNamed_eq, hf] at hrun
  -- What makes a file fail are its own references, whatever the table says about them.
  obtain ⟨output', houtput⟩ := exists_generateNamed_ok hf' (generateFile_eq_ok_iff.mp hrun).1
    (Options.override {} settings)
  have hrun' : generateFile (q.table (Options.override {} settings)) none f
      ((Options.override {} settings).forFile p f) = .ok output' := by
    rw [generateNamed_eq, hf'] at houtput
    rw [← h.forFile_eq]
    exact houtput
  refine ⟨output', houtput, ?_, ?_⟩
  · rw [← placement_forFile]
    exact Placement.places_of_generateFile hrun'
  · rw [map_name_generateFile hrun', map_name_generateFile hrun]

/-- The entries of an accepted parameter list settings.  Let a pool be given, such as the one that a
request with this parameter brings along.  Then the table of a run has for each package the namespace
in which its last file is placed, and a run that succeeds gives what its files give one after the
other.  What a file gives is generated under this table, and it is where the settings and the options
of the file place it.  There it stays if the other files of the pool change their options. -/
theorem generate_places {parameter : String} {defaults : Options}
    (h : Options.ofParameter parameter = .ok defaults) :
    (∃ settings, Options.Lists (Options.entries parameter) settings) ∧
      ∀ settings, Options.Lists (Options.entries parameter) settings → ∀ p : Pool,
        (∀ bytes request, CodeRequest.decode bytes = .ok request →
          request.parameter.getD "" = parameter → load request.schemas = .ok p →
          generateRequest bytes = p.generate defaults request.files) ∧
        (∀ package, (p.table defaults).get? package =
          (p.files.filter (·.package == package)).getLast?.map fun f =>
            (p.placement settings f).scope) ∧
        (∀ names output, p.generate defaults names = .ok output →
          ∃ own : String → Output,
            (∀ name ∈ names, p.generateNamed defaults name = .ok (own name)) ∧
            output = .concat (names.map own)) ∧
        ∀ name own, p.generateNamed defaults name = .ok own →
          ∃ f options, p.file? name = some f ∧
            generateFile (p.table defaults) none f options = .ok own ∧
            (p.placement settings f).Places f own.files ∧
            ∀ q, p.DiffersInOptions q → q.file? name = some f →
              q.placement settings f = p.placement settings f ∧
              ∃ own', q.generateNamed defaults name = .ok own' ∧
                (p.placement settings f).Places f own'.files ∧
                own'.files.map GeneratedFile.name = own.files.map GeneratedFile.name := by
  obtain ⟨settings, hsettings, -⟩ := (Options.foldlM_entries_eq_ok_iff parameter {} defaults).mp h
  refine ⟨⟨settings, hsettings⟩, fun settings hsettings p => ?_⟩
  -- Whatever settings the parameter lists, they are what its options come from.
  have hdefaults : defaults = Options.override {} settings := by
    have h' := Options.foldlM_of_lists hsettings {}
    rw [Options.ofParameter, h'] at h
    exact (Except.ok.inj h).symm
  subst hdefaults
  refine ⟨?_, p.get?_table settings, ?_, ?_⟩
  · rintro bytes request hrequest rfl hpool
    rw [generateRequest, hrequest]
    show (Options.ofParameter _ >>= _) = _
    rw [h]
    show (load _ >>= _) = _
    rw [hpool]
    rfl
  · intro names output hrun
    obtain ⟨hsteps, houtput⟩ := (Output.concat_mapM_eq_ok_iff _).mp hrun
    exact ⟨_, hsteps, houtput⟩
  · intro name own hown
    obtain ⟨f, hf, hrun, hplaces⟩ := places_of_generateNamed hown
    refine ⟨f, _, hf, hrun, hplaces, fun q hq hf' => ⟨hq.placement_eq settings f, ?_⟩⟩
    exact hq.exists_generateNamed hf hf' hown

/-- Two files of one package.  The first one has its types in the global namespace and in one file, and
its empty suffix does not count.  The second one takes the mode from the parameter and stands in the
table.  Without its options the first one stays where it is.  Where nobody knows the custom options, the
standard option and the parameter decide. -/
theorem generate_places_two_files :
    let extension (name : String) (number : Int) (type : FieldType) : Field :=
      { name, number, type, extendee := some ".google.protobuf.FileOptions" }
    let descriptor : File :=
      { name := "google/protobuf/descriptor.proto", package := "google.protobuf"
        messages := [{ name := "FileOptions" }] }
    let php : File :=
      { name := "php.proto", package := "php"
        extensions := [extension "package" 50002 .string, extension "namespace" 50003 .string,
          extension "multifile" 50004 .bool, extension "suffix" 50005 .string] }
    let order : File :=
      { name := "order.proto", package := "shop", messages := [{ name := "Order" }]
        phpNamespace := some "Shop"
        options := writeRecords [(50002, .bytes (encodeText "Pkg")), (50003, .bytes (encodeText "")),
          (50004, .varint 0), (50005, .bytes (encodeText ""))] }
    let item : File :=
      { name := "item.proto", package := "shop", messages := [{ name := "Item" }]
        options := writeRecords [(50002, .bytes (encodeText "Pkg.Deep")),
          (50005, .bytes (encodeText ".p"))] }
    let files := [descriptor, php, order, item]
    let p : Pool := { files, definitions := files.flatMap Definition.ofFile }
    let q : Pool := { p with files := [descriptor, php, order, item.withoutOptions] }
    let r : Pool := { files := [order], definitions := Definition.ofFile order }
    ∃ defaults, Options.ofParameter "multifile,suffix=.inc" = .ok defaults ∧
      (p.table defaults).get? "shop" = some ⟨["Pkg", "Deep"]⟩ ∧
      (∃ own, p.generateNamed defaults "order.proto" = .ok own ∧
        Placement.Places ⟨.root, false, ".inc"⟩ order own.files) ∧
      (∃ own, p.generateNamed defaults "item.proto" = .ok own ∧
        Placement.Places ⟨⟨["Pkg", "Deep"]⟩, true, ".p"⟩ item own.files) ∧
      (∃ own, q.generateNamed defaults "order.proto" = .ok own ∧
        Placement.Places ⟨.root, false, ".inc"⟩ order own.files) ∧
      ∃ own, r.generateNamed defaults "order.proto" = .ok own ∧
        Placement.Places ⟨⟨["Shop"]⟩, true, ".inc"⟩ order own.files := by
  intro extension descriptor php order item files p q r
  have hparameter : Options.ofParameter "multifile,suffix=.inc" =
      .ok { multifile := true, suffix := some ".inc" } := by decide +kernel
  have hsettings : Options.Lists (Options.entries "multifile,suffix=.inc")
      [.multifile true, .suffix ".inc"] := by
    have hentries : (Options.entries "multifile,suffix=.inc").filter (· ≠ "") =
        ["multifile", "suffix=" ++ ".inc"] := by decide +kernel
    rw [Options.Lists, hentries]
    exact .cons .multifile (.cons (.suffix ".inc" ⟨'i', by decide, by decide⟩) .nil)
  obtain ⟨-, hruns⟩ := generate_places hparameter
  obtain ⟨-, htable, -, hfiles⟩ := hruns _ hsettings p
  obtain ⟨-, -, -, hunknown⟩ := hruns _ hsettings r
  let option (name : String) (number : Int) (type : FieldType) : Typed.Field :=
    p.ofExtension "php.proto" (extension name number type)
  have hknown : p.KnowsPlacement (option "package" 50002 .string)
      (option "namespace" 50003 .string) (option "multifile" 50004 .bool)
      (option "suffix" 50005 .string) :=
    { package := by decide +kernel
      scope := by decide +kernel
      spread := by decide +kernel
      suffix := by decide +kernel }
  have horder : p.placement [.multifile true, .suffix ".inc"] order = ⟨.root, false, ".inc"⟩ := by
    have hvalues : p.WritesOptions order [(50002, .text "Pkg"), (50003, .text ""),
        (50004, .bool false), (50005, .text "")] := by
      refine ⟨_, rfl, ?_, by decide +kernel⟩
      exact .cons (hknown.package.setsOption trivial rfl) (.cons (hknown.scope.setsOption trivial rfl)
        (.cons (hknown.spread.setsOption trivial rfl)
          (.cons (hknown.suffix.setsOption trivial rfl) .nil)))
    rw [placement_of_known hknown hvalues]
    decide +kernel
  have hitem : p.placement [.multifile true, .suffix ".inc"] item =
      ⟨⟨["Pkg", "Deep"]⟩, true, ".p"⟩ := by
    have hvalues : p.WritesOptions item [(50002, .text "Pkg.Deep"), (50005, .text ".p")] := by
      refine ⟨_, rfl, ?_, by decide +kernel⟩
      exact .cons (hknown.package.setsOption trivial rfl)
        (.cons (hknown.suffix.setsOption trivial rfl) .nil)
    rw [placement_of_known hknown hvalues]
    decide +kernel
  have hstandard : r.placement [.multifile true, .suffix ".inc"] order =
      ⟨⟨["Shop"]⟩, true, ".inc"⟩ := by
    rw [placement_of_unknown (by decide +kernel)]
    decide +kernel
  have hfile : p.file? "order.proto" = some order := rfl
  have hfile' : p.file? "item.proto" = some item := rfl
  obtain ⟨own, hown⟩ := exists_generateNamed_ok hfile (by decide)
    { multifile := true, suffix := some ".inc" }
  obtain ⟨own', hown'⟩ := exists_generateNamed_ok hfile' (by decide)
    { multifile := true, suffix := some ".inc" }
  obtain ⟨f, -, hf, -, hplaces, hothers⟩ := hfiles "order.proto" own hown
  cases hf.symm.trans hfile
  obtain ⟨g, -, hg, -, hplaces', -⟩ := hfiles "item.proto" own' hown'
  cases hg.symm.trans hfile'
  -- The other pool has the first file as it is.
  obtain ⟨-, other, hother, hother', -⟩ := hothers q ⟨rfl, rfl⟩ rfl
  -- The last pool knows the first file only.
  have hfile'' : r.file? "order.proto" = some order := rfl
  obtain ⟨last, hlast⟩ := exists_generateNamed_ok hfile'' (by decide)
    { multifile := true, suffix := some ".inc" }
  obtain ⟨g, -, hg, -, hplaces'', -⟩ := hunknown "order.proto" last hlast
  cases hg.symm.trans hfile''
  rw [horder] at hplaces hother'
  rw [hitem] at hplaces'
  rw [hstandard] at hplaces''
  refine ⟨_, hparameter, ?_, ⟨own, hown, hplaces⟩, ⟨own', hown', hplaces'⟩, ⟨other, hother, hother'⟩,
    last, hlast, hplaces''⟩
  rw [htable]
  show some (p.placement _ item).scope = _
  rw [hitem]

end Pool

end ProtoPhp
