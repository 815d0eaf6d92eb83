/-
When a run fails and when it warns.

Whether a file can be generated, with which error it fails and with which
warnings it succeeds is settled by its references and the table alone.  If all
references of a pool lead to types that the pool declares, then only a missing
file is left as a cause of failure, and nothing is left to warn about.

* `generateFile_outcome` — success, error and warnings of a file;
* `Pool.warnings_generate_of_isClosed` — the outcome for a closed pool.
-/
import ProtoPhp.Proofs.Run
import ProtoPhp.Proofs.Units

namespace ProtoPhp

open Descriptor

/-- A file is generated exactly if all its references are fully qualified.  Otherwise the first one
that is not is the cause of the failure.  The warnings name each distinct reference that the table
does not track, in the order in which the references are looked up. -/
theorem generateFile_outcome (t : PackageTable) (date : Option Timestamp) (file : File)
    (options : Options) :
    ((∃ output, generateFile t date file options = .ok output) ↔
        ∀ r ∈ file.references, Reference.isQualified r = true) ∧
      Output.warnings <$> generateFile t date file options =
        match file.references.find? (!Reference.isQualified ·) with
        | some r => .error (.unqualifiedReference r)
        | none => .ok (t.warnings file.references) := by
  rw [generateFile_eq]
  cases hfind : file.references.find? (!Reference.isQualified ·) with
  | some r =>
    refine ⟨?_, rfl⟩
    constructor
    · rintro ⟨output, h⟩
      cases h
    · intro hall
      -- The reference that was found is not fully qualified.
      have hr := List.find?_some hfind
      rw [hall r (List.mem_of_find?_eq_some hfind)] at hr
      cases hr
  | none =>
    refine ⟨?_, rfl⟩
    constructor
    · intro _ r hr
      simpa using List.find?_eq_none.mp hfind r hr
    · intro _
      exact ⟨_, rfl⟩

/-- Of two messages, the inner one refers to an unknown package and extends a message of another; the
outer one refers to the first again. -/
example :
    Output.warnings <$> generateFile (.ofList [("a", .parse "A")]) none
      { messages := [
          { name := "M"
            fields := [{ type := .message, typeName := some ".b.N" }]
            messages := [
              { name := "I"
                fields := [{ type := .enum, typeName := some ".b.N" },
                  { type := .group, typeName := none }, { type := .group, typeName := some ".a.G" }]
                extensions := [{ extendee := some ".c.X" }] }] }] } {} =
      .ok [.untrackedPackage "b.N", .untrackedPackage "c.X"] := rfl

namespace Pool

/-- Some file of the pool declares the type that a reference names. -/
def Declares (p : Pool) (reference : String) : Prop :=
  ∃ f ∈ p.files, ∃ d ∈ Declaration.ofFile f, reference = "." ++ d.fullName f.package

instance (p : Pool) (reference : String) : Decidable (p.Declares reference) :=
  inferInstanceAs (Decidable (∃ f ∈ p.files, ∃ d ∈ Declaration.ofFile f,
    reference = "." ++ d.fullName f.package))

/-- All references of the files of a pool, at any depth, name types that the pool declares. -/
def IsClosed (p : Pool) : Prop :=
  ∀ f ∈ p.files,
    (∀ x ∈ f.allFields ++ f.allExtensions, ∀ r ∈ x.reference?, p.Declares r) ∧
      ∀ x ∈ f.allExtensions, p.Declares x.extendeeName

instance (p : Pool) : Decidable p.IsClosed :=
  inferInstanceAs (Decidable (∀ f ∈ p.files,
    (∀ x ∈ f.allFields ++ f.allExtensions, ∀ r ∈ x.reference?, p.Declares r) ∧
      ∀ x ∈ f.allExtensions, p.Declares x.extendeeName))

theorem declares_of_mem_references {p : Pool} (h : p.IsClosed) {f : File} (hf : f ∈ p.files)
    {r : String} (hr : r ∈ f.references) : p.Declares r := by
  rcases File.mem_references.mp hr with ⟨x, hx, hxr⟩ | ⟨x, hx, rfl⟩
  · exact (h f hf).1 x hx r hxr
  · exact (h f hf).2 x hx

/-- The table of a pool tracks every type of the pool, with or without a package. -/
theorem tracks_fullName (p : Pool) (defaults : Options) {f : File} (hf : f ∈ p.files)
    (d : Declaration) : (p.table defaults).tracks (d.fullName f.package) = true := by
  have hpackage : ((p.table defaults).get? f.package).isSome = true := by
    rw [table, PackageTable.isSome_get?_ofFiles]
    exact ⟨_, List.mem_map_of_mem hf, rfl⟩
  by_cases hp : f.package = ""
  · rw [hp] at hpackage
    rw [PackageTable.tracks, hpackage, Bool.true_or]
  · -- The package itself is a head of every full name in it.
    refine PackageTable.tracks_of_head ?_ hpackage
    rw [Declaration.fullName, Text.qualify_of_ne_empty hp, Text.mem_dottedHeads]
    exact .inr ⟨_, rfl⟩

/-- A file of a closed pool is generated without warnings. -/
theorem generateFile_of_isClosed {p : Pool} (h : p.IsClosed) (defaults : Options) {f : File}
    (hf : f ∈ p.files) (date : Option Timestamp) (options : Options) :
    ∃ output, generateFile (p.table defaults) date f options = .ok output ∧
      output.warnings = [] := by
  have hqualified : f.references.find? (!Reference.isQualified ·) = none := by
    rw [List.find?_eq_none]
    intro r hr
    obtain ⟨g, -, d, -, rfl⟩ := declares_of_mem_references h hf hr
    simp
  have htracked : ((f.references.map Reference.name).filter fun name =>
      !(p.table defaults).tracks name) = [] := by
    rw [List.filter_eq_nil_iff]
    intro name hname
    obtain ⟨r, hr, rfl⟩ := List.mem_map.mp hname
    obtain ⟨g, hg, d, -, rfl⟩ := declares_of_mem_references h hf hr
    simp [tracks_fullName p defaults hg d]
  rw [generateFile_eq, hqualified]
  refine ⟨_, rfl, ?_⟩
  show PackageTable.warnings _ _ = _
  rw [PackageTable.warnings, htracked]
  rfl

/-- A closed pool gives no warnings, and only a file that it does not have can end the run: the first
such name is the cause. -/
theorem warnings_generate_of_isClosed {p : Pool} (h : p.IsClosed) (defaults : Options)
    (names : List String) :
    Output.warnings <$> p.generate defaults names =
      match names.find? fun name => (p.file? name).isNone with
      | some name => .error (.fileNotFound name)
      | none => .ok [] := by
  induction names with
  | nil => rfl
  | cons name names ih =>
    rw [generate_cons, generateNamed_eq, List.find?_cons]
    cases hfile : p.file? name with
    | none => rfl
    | some f =>
      have hf := List.mem_of_find?_eq_some hfile
      obtain ⟨first, hfirst, hnone⟩ :=
        generateFile_of_isClosed h defaults hf none (defaults.forFile p f)
      show Output.warnings <$> (generateFile (p.table defaults) none f _ >>= _) =
        match names.find? fun name => (p.file? name).isNone with
        | some name => .error (.fileNotFound name)
        | none => .ok []
      rw [hfirst, ← ih]
      -- The first file brings no warnings, so that those of the rest are all there are.
      cases p.generate defaults names with
      | error e => rfl
      | ok rest =>
        show Except.ok (first.warnings ++ rest.warnings) = Except.ok rest.warnings
        rw [hnone, List.nil_append]

/-- A pool with two packages, of which one is empty, and a message that is extended across files.  One
file that is asked for is missing. -/
theorem warnings_generate_two_packages :
    let p : Pool :=
      { files := [
          { name := "a.proto"
            messages := [{ name := "M", enums := [{ name := "E" }] }] },
          { name := "b.proto"
            package := "b.c"
            phpNamespace := some "Vendor"
            messages := [
              { name := "N"
                fields := [{ type := .enum, typeName := some ".M.E" },
                  { type := .message, typeName := some ".b.c.N" }, { type := .group }]
                extensions := [{ type := .string, extendee := some ".M" }] }] }] }
    p.IsClosed ∧ Output.warnings <$> p.generate {} ["b.proto"] = .ok [] ∧
      Output.warnings <$> p.generate {} ["b.proto", "c.proto", "d.proto"] =
        .error (.fileNotFound "c.proto") := by
  intro p
  have hclosed : p.IsClosed := by decide
  exact ⟨hclosed, warnings_generate_of_isClosed hclosed {} ["b.proto"],
    warnings_generate_of_isClosed hclosed {} ["b.proto", "c.proto", "d.proto"]⟩

end Pool

end ProtoPhp
