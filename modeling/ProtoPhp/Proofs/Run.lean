/-
Runs over lists of files.

A run generates one file after the other and puts the results together.  It can
be cut anywhere: the first part runs as it would alone, and the second part runs
only if the first one succeeds.

* `bind_eq_ok` — what a successful run says about its steps;
* `Output.concat_mapM_append` — a run over two lists is one run after the other;
* `Output.concat_mapM_eq_ok_iff` — a successful run is the outputs of its steps;
* `generateFiles_append` — the same for schema files under one table;
* `Pool.generate_append` — the same for the files of a pool.
-/
import ProtoPhp.Plugin.Request
import ProtoPhp.Proofs.Units

namespace ProtoPhp

/-- A step and what follows it succeed one after the other. -/
theorem bind_eq_ok {ε α β : Type} {x : Except ε α} {k : α → Except ε β} {b : β} :
    x >>= k = .ok b ↔ ∃ a, x = .ok a ∧ k a = .ok b := by
  cases x with
  | error e => exact ⟨nofun, nofun⟩
  | ok a =>
    constructor
    · intro h
      exact ⟨a, rfl, h⟩
    · rintro ⟨_, ⟨⟩, h⟩
      exact h

theorem mapError_eq_ok {ε ε' α : Type} {x : Except ε α} {wrap : ε → ε'} {a : α} :
    x.mapError wrap = .ok a ↔ x = .ok a := by
  cases x <;> simp [Except.mapError]

namespace Output

theorem foldl_append_from (a : Output) (os : List Output) :
    os.foldl (· ++ ·) a = a ++ concat os := by
  induction os generalizing a with
  | nil => exact (append_empty a).symm
  | cons o os ih =>
    have hcons : concat (o :: os) = o ++ concat os := by
      rw [concat, List.foldl_cons, empty_append, ih]
    rw [List.foldl_cons, ih, hcons, append_assoc]

theorem concat_cons (o : Output) (os : List Output) : concat (o :: os) = o ++ concat os := by
  rw [concat, List.foldl_cons, empty_append, foldl_append_from]

variable {α : Type} (f : α → Except Error Output)

/-- A run starts with its first file. -/
theorem concat_mapM_cons (x : α) (xs : List α) :
    concat <$> (x :: xs).mapM f = do
      let first ← f x
      let rest ← concat <$> xs.mapM f
      return first ++ rest := by
  rw [List.mapM_cons]
  cases f x with
  | error e => rfl
  | ok first =>
    cases xs.mapM f with
    | error e => rfl
    | ok os => exact congrArg Except.ok (concat_cons first os)

/-- A run over two lists is one run after the other. -/
theorem concat_mapM_append (xs ys : List α) :
    concat <$> (xs ++ ys).mapM f = do
      let first ← concat <$> xs.mapM f
      let rest ← concat <$> ys.mapM f
      return first ++ rest := by
  induction xs with
  | nil =>
    show concat <$> ys.mapM f = (concat <$> ys.mapM f >>= fun rest => pure ({} ++ rest))
    cases ys.mapM f <;> rfl
  | cons x xs ih =>
    rw [List.cons_append, concat_mapM_cons, concat_mapM_cons, ih]
    -- The first error, wherever it is, ends both sides; without one `++` only needs regrouping.
    cases f x with
    | error e => rfl
    | ok first =>
      cases concat <$> xs.mapM f with
      | error e => rfl
      | ok middle =>
        cases concat <$> ys.mapM f with
        | error e => rfl
        | ok rest => exact congrArg Except.ok (append_assoc first middle rest).symm

/-- The output of one step of a run; empty if it fails. -/
def ofStep (step : Except Error Output) : Output := step.toOption.getD {}

/-- A run succeeds if each of its steps does, and then it gives their outputs one after the other. -/
theorem concat_mapM_eq_ok_iff {xs : List α} {output : Output} :
    concat <$> xs.mapM f = .ok output ↔
      (∀ x ∈ xs, f x = .ok (ofStep (f x))) ∧ output = concat (xs.map fun x => ofStep (f x)) := by
  induction xs generalizing output with
  | nil =>
    show Except.ok (concat []) = .ok output ↔ _
    simp [eq_comm]
  | cons x xs ih =>
    rw [concat_mapM_cons, bind_eq_ok, List.forall_mem_cons, List.map_cons, concat_cons]
    constructor
    · rintro ⟨first, hfirst, h⟩
      obtain ⟨rest, hrest, h⟩ := bind_eq_ok.mp h
      obtain ⟨hsteps, rfl⟩ := ih.mp hrest
      have hstep : ofStep (f x) = first := by
        rw [ofStep, hfirst]
        rfl
      cases h
      rw [hstep]
      exact ⟨⟨hfirst, hsteps⟩, rfl⟩
    · rintro ⟨⟨hfirst, hsteps⟩, rfl⟩
      exact ⟨_, hfirst, bind_eq_ok.mpr ⟨_, ih.mpr ⟨hsteps, rfl⟩, rfl⟩⟩

end Output

/-- Two lists of files are generated one list after the other. -/
theorem generateFiles_append (t : PackageTable) (date : Option Timestamp)
    (files files' : List (Descriptor.File × Options)) :
    generateFiles t date (files ++ files') = do
      let first ← generateFiles t date files
      let rest ← generateFiles t date files'
      return first ++ rest :=
  Output.concat_mapM_append _ files files'

theorem generateFiles_cons (t : PackageTable) (date : Option Timestamp)
    (f : Descriptor.File × Options) (files : List (Descriptor.File × Options)) :
    generateFiles t date (f :: files) = do
      let first ← generateFile t date f.1 f.2
      let rest ← generateFiles t date files
      return first ++ rest :=
  Output.concat_mapM_cons _ f files

/-- Files with fully qualified references are all generated. -/
theorem exists_generateFiles_ok (t : PackageTable) (date : Option Timestamp)
    (files : List (Descriptor.File × Options))
    (h : ∀ f ∈ files, ∀ r ∈ f.1.references, Reference.isQualified r = true) :
    ∃ output, generateFiles t date files = .ok output := by
  induction files with
  | nil => exact ⟨{}, rfl⟩
  | cons f fs ih =>
    obtain ⟨rest, hrest⟩ := ih fun g hg => h g (List.mem_cons_of_mem _ hg)
    rw [generateFiles_cons, generateFile_eq_ok_iff.mpr ⟨h f List.mem_cons_self, rfl⟩, hrest]
    exact ⟨_, rfl⟩

namespace Pool

/-- The file of a pool with a name is generated under the table of the whole pool. -/
theorem generateNamed_eq (p : Pool) (defaults : Options) (name : String) :
    p.generateNamed defaults name =
      match p.file? name with
      | none => .error (.fileNotFound name)
      | some f => generateFile (p.table defaults) none f (defaults.forFile p f) := by
  have hfind : (p.withOptions defaults).find? (·.1.name == name) =
      (p.file? name).map fun f => (f, defaults.forFile p f) := by
    rw [withOptions, List.find?_map]
    rfl
  rw [generateNamed, hfind]
  cases p.file? name <;> rfl

theorem generate_cons (p : Pool) (defaults : Options) (name : String) (names : List String) :
    p.generate defaults (name :: names) = do
      let first ← p.generateNamed defaults name
      let rest ← p.generate defaults names
      return first ++ rest :=
  Output.concat_mapM_cons _ name names

/-- The files of two lists of names are generated one list after the other. -/
theorem generate_append (p : Pool) (defaults : Options) (names names' : List String) :
    p.generate defaults (names ++ names') = do
      let first ← p.generate defaults names
      let rest ← p.generate defaults names'
      return first ++ rest :=
  Output.concat_mapM_append _ names names'

end Pool

end ProtoPhp
