/-
What the output of a file depends on.

A reference is resolved by the entries of the packages that its name lies in,
and by that of the empty package.  Other entries have no say, however much they
look like a beginning of the name.  So a file is generated alike under all
tables that agree on the packages which its references lie in, and a further
file whose package no reference lies in leaves the others alone.

* `PackageTable.resolve_congr` — a reference under two tables;
* `SourceUnit.ofFile_congr` — the units of a file, by recursion over its messages;
* `generate_local` — a file under two tables, and a run with a further file.
-/
import ProtoPhp.Proofs.Run

namespace ProtoPhp

open Descriptor

namespace Reference

/-- A reference lies in a package if it names the package itself or something below it. -/
def LiesIn (reference package : String) : Prop :=
  reference = "." ++ package ∨ ∃ rest, reference = "." ++ package ++ "." ++ rest

theorem eq_dot_append_name {reference : String} (h : isQualified reference = true) :
    reference = "." ++ name reference := by
  have hname : ("." ++ name reference).toList = '.' :: reference.toList.tail := by simp [name]
  rw [isQualified, beq_iff_eq] at h
  exact String.ext ((List.cons_head?_tail h).symm.trans hname.symm)

/-- The packages that a fully qualified reference lies in are the heads of its name. -/
theorem liesIn_iff {reference package : String} :
    LiesIn reference package ↔
      isQualified reference = true ∧ package ∈ Text.dottedHeads (name reference) := by
  rw [Text.mem_dottedHeads]
  constructor
  · rintro (rfl | ⟨rest, rfl⟩)
    · exact ⟨isQualified_dot_append _, .inl (name_dot_append _).symm⟩
    · rw [String.append_assoc, String.append_assoc]
      refine ⟨isQualified_dot_append _, .inr ⟨rest, ?_⟩⟩
      rw [name_dot_append, String.append_assoc]
  · rintro ⟨hq, rfl | ⟨rest, hrest⟩⟩
    · exact .inl (eq_dot_append_name hq)
    · refine .inr ⟨rest, ?_⟩
      rw [eq_dot_append_name hq, hrest, ← String.append_assoc, ← String.append_assoc]

instance (reference package : String) : Decidable (LiesIn reference package) :=
  decidable_of_iff _ liesIn_iff.symm

end Reference

namespace PackageTable

/-- Two tables give the same namespaces to the empty package and to the packages that the references
of a file lie in. -/
def AgreeFor (t u : PackageTable) (file : File) : Prop :=
  t.get? "" = u.get? "" ∧
    ∀ r ∈ file.references, ∀ package, Reference.LiesIn r package →
      t.get? package = u.get? package

theorem agreeFor_iff {t u : PackageTable} {file : File} :
    t.AgreeFor u file ↔ t.get? "" = u.get? "" ∧
      ∀ r ∈ file.references, Reference.isQualified r = true →
        ∀ head ∈ Text.dottedHeads (Reference.name r), t.get? head = u.get? head := by
  simp only [AgreeFor, Reference.liesIn_iff, and_imp]
  refine and_congr_right fun _ => forall₂_congr fun r _ => ?_
  exact ⟨fun h hq head => h head hq, fun h head hq => h hq head⟩

instance (t u : PackageTable) (file : File) : Decidable (t.AgreeFor u file) :=
  decidable_of_iff _ agreeFor_iff.symm

/-- The package that is found for a name is the longest one that encloses it. -/
theorem enclosing?_eq_some_iff {t : PackageTable} {package name : String} {ns : Namespace} :
    t.enclosing? name = some (package, ns) ↔
      t.get? package = some ns ∧ encloses package name = true ∧
        ∀ q, (t.get? q).isSome = true → encloses q name = true → q.length ≤ package.length := by
  constructor
  · intro h
    obtain ⟨he, hn⟩ := List.mem_filter.mp (List.maxOn?_mem h)
    refine ⟨mem_entries_iff.mp he, hn, fun q hq hqn => ?_⟩
    obtain ⟨ns', hq⟩ := Option.isSome_iff_exists.mp hq
    have hmem : (q, ns') ∈ t.entries.filter fun e => encloses e.1 name :=
      List.mem_filter.mpr ⟨mem_entries_iff.mpr hq, hqn⟩
    have hle := List.le_apply_get_maxOn?_of_mem (f := fun e : String × Namespace => e.1.length) hmem
    rw [enclosing?] at h
    simpa only [h, Option.get_some] using hle
  · rintro ⟨hget, hn, hlong⟩
    exact enclosing?_eq_some hget hn hlong

/-- A name is looked up alike under two tables that agree on its heads and on the empty package. -/
theorem resolveQualified_congr {t u : PackageTable} {name : String}
    (hroot : t.get? "" = u.get? "")
    (hheads : ∀ head ∈ Text.dottedHeads name, t.get? head = u.get? head) :
    t.resolveQualified name = u.resolveQualified name := by
  have hself : t.get? name = u.get? name := hheads name (Text.mem_dottedHeads.mpr (.inl rfl))
  have hencloses : ∀ q, encloses q name = true → t.get? q = u.get? q := fun q hq =>
    hheads q (Text.mem_dottedHeads.mpr (.inr (encloses_iff.mp hq).2))
  have hencl : t.enclosing? name = u.enclosing? name := by
    refine Option.ext fun ⟨package, ns⟩ => ?_
    rw [enclosing?_eq_some_iff, enclosing?_eq_some_iff]
    constructor
    · rintro ⟨hget, hn, hlong⟩
      refine ⟨hencloses _ hn ▸ hget, hn, fun q hq hqn => hlong q ?_ hqn⟩
      rwa [hencloses q hqn]
    · rintro ⟨hget, hn, hlong⟩
      refine ⟨(hencloses _ hn).symm ▸ hget, hn, fun q hq hqn => hlong q ?_ hqn⟩
      rwa [← hencloses q hqn]
  rw [resolveQualified, resolveQualified, hself, hencl, hroot]

/-- A reference is resolved alike under two tables that agree on the packages it lies in. -/
theorem resolve_congr {t u : PackageTable} {reference : String} (hroot : t.get? "" = u.get? "")
    (hlies : ∀ package, Reference.LiesIn reference package → t.get? package = u.get? package) :
    t.resolve reference = u.resolve reference := by
  rw [resolve_eq, resolve_eq]
  by_cases hq : Reference.isQualified reference = true
  · rw [if_pos hq, if_pos hq]
    refine congrArg _ (resolveQualified_congr hroot fun head hhead => hlies head ?_)
    exact Reference.liesIn_iff.mpr ⟨hq, hhead⟩
  · rw [if_neg hq, if_neg hq]

/-- Of the entries of a run a file changes only that of its own package. -/
theorem get?_ofFiles_insert (before after : List (File × Options)) (g : File × Options)
    {package : String} (h : package ≠ g.1.package) :
    (ofFiles (before ++ g :: after)).get? package = (ofFiles (before ++ after)).get? package := by
  have hb : (package == g.1.package) = false := by rwa [beq_eq_false_iff_ne]
  rw [ofFiles, ofFiles, get?_ofList, get?_ofList, List.map_append, List.map_append, List.map_cons,
    List.reverse_append, List.reverse_append, List.reverse_cons, List.append_assoc,
    List.lookup_append, List.lookup_append, List.lookup_append, List.lookup_cons, hb]
  rfl

end PackageTable

theorem mapM_congr {m : Type → Type} [Monad m] [LawfulMonad m] {α β : Type} {f g : α → m β}
    {xs : List α} (h : ∀ x ∈ xs, f x = g x) : xs.mapM f = xs.mapM g := by
  induction xs with
  | nil => rw [List.mapM_nil, List.mapM_nil]
  | cons x xs ih =>
    rw [List.mapM_cons, List.mapM_cons, h x List.mem_cons_self,
      ih fun y hy => h y (List.mem_cons_of_mem _ hy)]

namespace Resolving

variable {t u : PackageTable}

theorem reference_congr {r : String} (h : t.resolve r = u.resolve r) :
    reference t r = reference u r := by
  funext log
  rw [reference, reference, h]

/-- A field is resolved alike under two tables that resolve its reference alike. -/
theorem field_congr {f : Field} (h : ∀ r, f.reference? = some r → t.resolve r = u.resolve r) :
    field t f = field u f := by
  rw [Field.reference?] at h
  rw [field, field, valueType, valueType]
  cases htype : f.type
  case message => rw [reference_congr (h _ (by rw [htype]))]
  case enum => rw [reference_congr (h _ (by rw [htype]))]
  case group =>
    cases hname : f.typeName with
    | none => rfl
    | some name => simp only [reference_congr (h name (by rw [htype, hname]))]
  all_goals rfl

end Resolving

namespace SourceUnit

variable {t u : PackageTable}

mutual

theorem ofMessage_congr (ns : Namespace) :
    ∀ m : Message, (∀ f ∈ m.allFields, Resolving.field t f = Resolving.field u f) →
      ofMessage t ns m = ofMessage u ns m
  | { name, fields, messages, .. }, h => by
    rw [Message.allFields] at h
    rw [ofMessage, ofMessage,
      mapM_congr fun f hf => h f (List.mem_append_left _ hf),
      ofMessages_congr (ns.child name) messages fun f hf => h f (List.mem_append_right _ hf)]

theorem ofMessages_congr (ns : Namespace) :
    ∀ ms : List Message, (∀ f ∈ fieldsOf ms, Resolving.field t f = Resolving.field u f) →
      ofMessages t ns ms = ofMessages u ns ms
  | [], _ => rfl
  | m :: ms, h => by
    rw [fieldsOf] at h
    rw [ofMessages, ofMessages, ofMessage_congr ns m fun f hf => h f (List.mem_append_left _ hf),
      ofMessages_congr ns ms fun f hf => h f (List.mem_append_right _ hf)]

end

/-- The registrations of one message depend on its name and on the references of the extensions. -/
theorem registrations_congr {extendee : String} {extensions : List ScopedExtension}
    (hname : t.resolve extendee = u.resolve extendee)
    (hfields : ∀ e ∈ extensions, Resolving.field t e.field = Resolving.field u e.field) :
    registrations t extendee extensions = registrations u extendee extensions := by
  rw [registrations, registrations, Resolving.reference_congr hname]
  refine bind_congr fun extended => ?_
  rw [mapM_congr fun e he => by rw [hfields e he]]

/-- The units of a file are the same under two tables that resolve its references alike. -/
theorem ofFile_congr (ns : Namespace) (stem : String) {file : File}
    (h : ∀ r ∈ file.references, t.resolve r = u.resolve r) :
    ofFile t ns stem file = ofFile u ns stem file := by
  have hfield : ∀ f ∈ file.allFields ++ file.allExtensions,
      Resolving.field t f = Resolving.field u f := by
    intro f hf
    exact Resolving.field_congr fun r hr => h r (File.mem_references.mpr (.inl ⟨f, hf, hr⟩))
  have htypes : ofMessages t ns file.messages = ofMessages u ns file.messages :=
    ofMessages_congr ns _ fun f hf => hfield f (List.mem_append_left _ hf)
  have hextensions : ofExtensions t stem (ScopedExtension.ofFile ns file) =
      ofExtensions u stem (ScopedExtension.ofFile ns file) := by
    rw [ofExtensions, ofExtensions, ScopedExtension.grouped_ofFile]
    have hgroups : ∀ g ∈ file.extendees.map fun x => (x, ScopedExtension.extending ns file x),
        registrations t g.1 g.2 = registrations u g.1 g.2 := by
      intro g hg
      obtain ⟨extendee, hextendee, rfl⟩ := List.mem_map.mp hg
      refine registrations_congr (h _ ?_) fun e he => hfield _ (List.mem_append_right _ ?_)
      · obtain ⟨f, hf, rfl⟩ := List.mem_map.mp (List.mem_eraseDups.mp hextendee)
        exact File.mem_references.mpr (.inr ⟨f, hf, rfl⟩)
      · rw [← ScopedExtension.map_field_ofFile ns]
        exact List.mem_map_of_mem (List.mem_filter.mp he).1
    cases hcases : file.extendees.map fun x => (x, ScopedExtension.extending ns file x) with
    | nil => rfl
    | cons g gs =>
      rw [hcases] at hgroups
      show (List.mapM _ (g :: gs) >>= _) = (List.mapM _ (g :: gs) >>= _)
      rw [mapM_congr hgroups]
  rw [ofFile, ofFile, htypes, hextensions]

end SourceUnit

/-- A file is generated alike under two tables that agree for it. -/
theorem generateFile_congr {t u : PackageTable} {file : File} (h : t.AgreeFor u file)
    (date : Option Timestamp) (options : Options) :
    generateFile t date file options = generateFile u date file options := by
  have hresolve : ∀ r ∈ file.references, t.resolve r = u.resolve r := fun r hr =>
    PackageTable.resolve_congr h.1 (h.2 r hr)
  rw [generateFile, generateFile, fileUnits, fileUnits, SourceUnit.ofFile_congr _ _ hresolve]

theorem generateFiles_congr {t u : PackageTable} {files : List (File × Options)}
    (h : ∀ f ∈ files, t.AgreeFor u f.1) (date : Option Timestamp) :
    generateFiles t date files = generateFiles u date files := by
  rw [generateFiles, generateFiles, mapM_congr fun f hf => generateFile_congr (h f hf) date f.2]

/-- Whether a file can be generated does not depend on the table. -/
theorem exists_generateFile_ok {t : PackageTable} {date : Option Timestamp} {file : File}
    {options : Options} (h : ∃ output, generateFile t date file options = .ok output)
    (u : PackageTable) (date' : Option Timestamp) :
    ∃ output, generateFile u date' file options = .ok output := by
  obtain ⟨output, h⟩ := h
  exact ⟨_, generateFile_eq_ok_iff.mpr ⟨(generateFile_eq_ok_iff.mp h).1, rfl⟩⟩

/-- Under two tables that give the same namespaces to the empty package and to every package that a
reference of a file lies in, the file has the same output or the same error.  So a further file of a
run, which can itself be generated and has a package of its own that no reference of the other files
lies in, adds its own output at its place and changes nothing else. -/
theorem generate_local :
    (∀ (t u : PackageTable) (file : File), t.AgreeFor u file → ∀ date options,
      generateFile t date file options = generateFile u date file options) ∧
    ∀ (before after : List (File × Options)) (g : File × Options), g.1.package ≠ "" →
      (∀ f ∈ before ++ after, ∀ r ∈ f.1.references, ¬ Reference.LiesIn r g.1.package) →
      (∃ t date output, generateFile t date g.1 g.2 = .ok output) →
      ∀ date, ∃ own,
        generateFile (.ofFiles (before ++ g :: after)) date g.1 g.2 = .ok own ∧
        let t := PackageTable.ofFiles (before ++ after)
        generate date (before ++ after) = (do
          let first ← generateFiles t date before
          let rest ← generateFiles t date after
          return first ++ rest) ∧
        generate date (before ++ g :: after) = (do
          let first ← generateFiles t date before
          let rest ← generateFiles t date after
          return first ++ own ++ rest) := by
  refine ⟨fun t u file h date options => generateFile_congr h date options, ?_⟩
  intro before after g hpackage happart hg date
  obtain ⟨t, date', hg⟩ := hg
  obtain ⟨own, hown⟩ :=
    exists_generateFile_ok hg (.ofFiles (before ++ g :: after)) date
  -- The entry of the further package is out of reach for the other files.
  have hagree : ∀ f ∈ before ++ after, PackageTable.AgreeFor (.ofFiles (before ++ g :: after))
      (.ofFiles (before ++ after)) f.1 := by
    intro f hf
    refine ⟨PackageTable.get?_ofFiles_insert before after g hpackage.symm, ?_⟩
    intro r hr package hlies
    refine PackageTable.get?_ofFiles_insert before after g ?_
    rintro rfl
    exact happart f hf r hr hlies
  have hbefore := generateFiles_congr (fun f hf => hagree f (List.mem_append_left _ hf)) date
  have hafter := generateFiles_congr (fun f hf => hagree f (List.mem_append_right _ hf)) date
  refine ⟨own, hown, generateFiles_append _ date before after, ?_⟩
  rw [generate, generateFiles_append, generateFiles_cons, hown, hbefore, hafter]
  cases generateFiles (.ofFiles (before ++ after)) date before with
  | error e => rfl
  | ok first =>
    cases generateFiles (.ofFiles (before ++ after)) date after with
    | error e => rfl
    | ok rest => exact congrArg Except.ok (Output.append_assoc first own rest).symm

/-- The package `a.bc` is out of reach of a reference into `a.b`. -/
theorem generate_local_look_alike :
    let file : File :=
      { name := "m.proto", package := "a"
        messages := [{ name := "M", fields := [{ type := .message, typeName := some ".a.b.N" }] }] }
    let other : File := { name := "n.proto", package := "a.b", messages := [{ name := "N" }] }
    let further : File := { name := "bc.proto", package := "a.bc", enums := [{ name := "E" }] }
    let t := PackageTable.ofList [("a.b", .parse "B"), ("a.bc", .parse "C")]
    let u := PackageTable.ofList [("a.b", .parse "B")]
    t.AgreeFor u file ∧ generateFile t none file {} = generateFile u none file {} ∧
      (∀ f ∈ [file, other], ∀ r ∈ f.references, ¬ Reference.LiesIn r "a.bc") ∧
      ∃ first own rest,
        generate none [(file, {}), (other, {})] = .ok (first ++ rest) ∧
        generate none [(file, {}), (further, {}), (other, {})] = .ok (first ++ own ++ rest) := by
  intro file other further t u
  have hagree : t.AgreeFor u file := by decide
  have happart : ∀ f ∈ [file, other], ∀ r ∈ f.references, ¬ Reference.LiesIn r "a.bc" := by decide
  refine ⟨hagree, generate_local.1 t u file hagree none {}, happart, ?_⟩
  obtain ⟨own, -, hwithout, hwith⟩ := generate_local.2 [(file, {})] [(other, {})] (further, {})
    (by decide) (by decide)
    ⟨.empty, none, _, generateFile_eq_ok_iff.mpr ⟨by decide, rfl⟩⟩ none
  obtain ⟨first, hfirst⟩ := exists_generateFiles_ok (.ofFiles [(file, {}), (other, {})]) none
    [(file, {})] (by decide)
  obtain ⟨rest, hrest⟩ := exists_generateFiles_ok (.ofFiles [(file, {}), (other, {})]) none
    [(other, {})] (by decide)
  refine ⟨first, own, rest, hwithout.trans ?_, hwith.trans ?_⟩
  · rw [List.singleton_append, hfirst, hrest]
    rfl
  · rw [List.singleton_append, hfirst, hrest]
    rfl

end ProtoPhp
