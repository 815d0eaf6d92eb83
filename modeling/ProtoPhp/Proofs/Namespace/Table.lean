/-
Looking type references up.

A reference is resolved by the heads of its name that are packages of the
table.  The longest of them decides where the type lives, and a reference draws
a warning exactly if there is none and types without a package have no entry
either.

* `PackageTable.get?_ofFiles` — the last file with a package gives its namespace;
* `PackageTable.resolveQualified_qualify` — a name inside a package is found
  below the namespace of that package if no longer head is a package;
* `PackageTable.warnings_resolveQualified` — when a name draws a warning.
-/
import Mathlib.Logic.Basic
import ProtoPhp.Options.Basic
import ProtoPhp.Proofs.Namespace.Parsing
import ProtoPhp.Proofs.Text.Dotted

namespace ProtoPhp

namespace Reference

/-- A reference is fully qualified if it starts with a dot. -/
def isQualified (reference : String) : Bool := reference.toList.head? == some '.'

/-- The name that a fully qualified reference gives. -/
def name (reference : String) : String := String.ofList reference.toList.tail

@[simp] theorem isQualified_dot_append (s : String) : isQualified ("." ++ s) = true := by
  simp [isQualified]

@[simp] theorem name_dot_append (s : String) : name ("." ++ s) = s := by
  simp [name]

end Reference

namespace PackageTable

open Text

theorem get?_foldl_insert (entries : List (String × Namespace)) (t : PackageTable)
    (package : String) :
    (entries.foldl (fun t e => t.insert e.1 e.2) t).get? package =
      (entries.reverse.lookup package).or (t.get? package) := by
  induction entries generalizing t with
  | nil => rfl
  | cons e es ih =>
    obtain ⟨q, ns⟩ := e
    rw [List.foldl_cons, ih, get?_insert, List.reverse_cons, List.lookup_append, Option.or_assoc,
      List.lookup_cons]
    congr 1
    by_cases h : package = q
    · simp [h]
    · have hb : (package == q) = false := by simp [h]
      simp [h, hb]

/-- Of several entries for a package the last one counts. -/
theorem get?_ofList (entries : List (String × Namespace)) (package : String) :
    (ofList entries).get? package = entries.reverse.lookup package := by
  rw [ofList, get?_foldl_insert, get?_empty, Option.or_none]

/-- The namespace that the last entry for a package gives it. -/
def lastNamespace (entries : List (String × Namespace)) (package : String) : Option Namespace :=
  (entries.filter (·.1 == package)).getLast?.map Prod.snd

theorem lookup_eq_head?_filter (entries : List (String × Namespace)) (package : String) :
    entries.lookup package = (entries.filter (·.1 == package)).head?.map Prod.snd := by
  induction entries with
  | nil => rfl
  | cons e es ih =>
    obtain ⟨q, ns⟩ := e
    by_cases h : q = package
    · simp [h]
    · have hb : (package == q) = false := by simpa using Ne.symm h
      rw [List.lookup_cons, hb, List.filter_cons_of_neg (by simpa using h)]
      exact ih

/-- A table keeps the last namespace that a package is given. -/
theorem get?_ofList_eq_last (entries : List (String × Namespace)) (package : String) :
    (ofList entries).get? package = lastNamespace entries package := by
  rw [get?_ofList, lookup_eq_head?_filter, List.filter_reverse, List.head?_reverse, lastNamespace]

/-- The last file with a package gives its namespace. -/
theorem get?_ofFiles {files before after : List (Descriptor.File × Options)}
    {last : Descriptor.File × Options} (hfiles : files = before ++ last :: after)
    (hlast : ∀ f ∈ after, f.1.package ≠ last.1.package) :
    (ofFiles files).get? last.1.package = some (last.2.namespaceFor last.1.package) := by
  subst hfiles
  rw [ofFiles, get?_ofList, List.map_append, List.map_cons, List.reverse_append,
    List.reverse_cons, List.append_assoc, List.lookup_append]
  have hafter : (after.map fun f =>
      (f.1.package, f.2.namespaceFor f.1.package)).reverse.lookup last.1.package = none := by
    rw [List.lookup_eq_none_iff]
    intro e he
    obtain ⟨f, hf, rfl⟩ := List.mem_map.mp (List.mem_reverse.mp he)
    simpa using (hlast f hf).symm
  rw [hafter, Option.none_or, List.lookup_append, List.lookup_cons_self, Option.some_or]

theorem isSome_get?_ofFiles (files : List (Descriptor.File × Options)) (package : String) :
    ((ofFiles files).get? package).isSome = true ↔ ∃ f ∈ files, f.1.package = package := by
  rw [ofFiles, get?_ofList, List.lookup_isSome_iff]
  constructor
  · rintro ⟨e, he, h⟩
    obtain ⟨f, hf, rfl⟩ := List.mem_map.mp (List.mem_reverse.mp he)
    exact ⟨f, hf, (eq_of_beq h).symm⟩
  · rintro ⟨f, hf, rfl⟩
    exact ⟨_, List.mem_reverse.mpr (List.mem_map_of_mem hf), beq_self_eq_true _⟩

/-- Among the files with a package there is a last one. -/
theorem exists_last_with_package {files : List (Descriptor.File × Options)} {package : String}
    (h : ∃ f ∈ files, f.1.package = package) :
    ∃ before last after, files = before ++ last :: after ∧ last.1.package = package ∧
      ∀ g ∈ after, g.1.package ≠ package := by
  induction files with
  | nil =>
    obtain ⟨f, hf, -⟩ := h
    cases hf
  | cons g gs ih =>
    by_cases hlater : ∃ f ∈ gs, f.1.package = package
    · obtain ⟨before, last, after, rfl, hp, hafter⟩ := ih hlater
      exact ⟨g :: before, last, after, rfl, hp, hafter⟩
    · obtain ⟨f, hf, hp⟩ := h
      rcases List.mem_cons.mp hf with rfl | hf
      · exact ⟨[], f, gs, rfl, hp, fun g hg hgp => hlater ⟨g, hg, hgp⟩⟩
      · exact absurd ⟨f, hf, hp⟩ hlater

theorem mem_entries_iff {t : PackageTable} {package : String} {ns : Namespace} :
    (package, ns) ∈ t.entries ↔ t.get? package = some ns := by
  rw [get?, List.lookup_eq_some_iff]
  constructor
  · intro h
    obtain ⟨before, after, he⟩ := List.append_of_mem h
    refine ⟨before, after, he, fun e hm => ?_⟩
    -- A second entry of the package would repeat its key.
    have hnodup := t.nodup
    rw [he, List.map_append, List.map_cons, List.nodup_append] at hnodup
    have hne := hnodup.2.2 e.1 (List.mem_map_of_mem hm) package List.mem_cons_self
    simpa using hne.symm
  · rintro ⟨before, after, he, -⟩
    simp [he]

theorem encloses_iff {package name : String} :
    encloses package name = true ↔ package ≠ "" ∧ ∃ rest, name = package ++ "." ++ rest := by
  rw [encloses, Bool.and_eq_true, List.isPrefixOf_iff_prefix]
  refine and_congr (by simp) ⟨?_, ?_⟩
  · rintro ⟨rest, h⟩
    refine ⟨String.ofList rest, String.ext ?_⟩
    simpa using h.symm
  · rintro ⟨rest, rfl⟩
    exact ⟨rest.toList, by simp⟩

theorem enclosing?_eq_none_iff {t : PackageTable} {name : String} :
    t.enclosing? name = none ↔
      ∀ package, (t.get? package).isSome = true → encloses package name = false := by
  rw [enclosing?, ← Option.not_isSome_iff_eq_none, List.isSome_maxOn?_iff, not_not,
    List.filter_eq_nil_iff]
  constructor
  · intro h package hp
    obtain ⟨ns, hns⟩ := Option.isSome_iff_exists.mp hp
    simpa using h (package, ns) (mem_entries_iff.mpr hns)
  · rintro h ⟨package, ns⟩ he
    simp [h package (by simp [mem_entries_iff.mp he])]

/-- The longest package that encloses a name is found with its namespace. -/
theorem enclosing?_eq_some {t : PackageTable} {package name : String} {ns : Namespace}
    (hget : t.get? package = some ns) (hname : encloses package name = true)
    (hlong : ∀ q, (t.get? q).isSome = true → encloses q name = true →
      q.length ≤ package.length) :
    t.enclosing? name = some (package, ns) := by
  have hmem : (package, ns) ∈ t.entries.filter fun e => encloses e.1 name :=
    List.mem_filter.mpr ⟨mem_entries_iff.mpr hget, hname⟩
  have hsome := List.isSome_maxOn?_of_mem (f := fun e : String × Namespace => e.1.length) hmem
  have hle := List.le_apply_get_maxOn?_of_mem (f := fun e : String × Namespace => e.1.length) hmem
  obtain ⟨⟨q, ns'⟩, hq⟩ := Option.isSome_iff_exists.mp hsome
  simp only [hq, Option.get_some] at hle
  obtain ⟨hqe, hqn⟩ := List.mem_filter.mp (List.maxOn?_mem hq)
  have hqget := mem_entries_iff.mp hqe
  have hge := hlong q (by simp [hqget]) hqn
  -- Two packages of one length that enclose the same name are the same.
  obtain ⟨-, rest, h⟩ := encloses_iff.mp hname
  obtain ⟨-, rest', h'⟩ := encloses_iff.mp hqn
  have heq : package = q := by
    have happ : package.toList ++ ("." ++ rest).toList = q.toList ++ ("." ++ rest').toList := by
      rw [← String.toList_append, ← String.toList_append, ← String.append_assoc,
        ← String.append_assoc, ← h, ← h']
    refine String.toList_inj.mp (List.append_inj_left happ ?_)
    rw [String.length_toList, String.length_toList]
    omega
  subst heq
  rw [hget] at hqget
  rw [enclosing?, hq, Option.some.inj hqget]

theorem below_append (package rest : String) : below package (package ++ rest) = rest := by
  rw [below, String.toList_append, ← String.length_toList, List.drop_left, String.ofList_toList]

/-- A name without a package around it is found below the namespace of the empty package. -/
theorem resolveQualified_root {t : PackageTable} {rest : String} {ns : Namespace}
    (hget : t.get? "" = some ns)
    (hempty : ∀ head ∈ dottedHeads rest, (t.get? head).isSome = true → head = "") :
    t.resolveQualified rest = ⟨ns.join (.parse rest), []⟩ := by
  by_cases hr : rest = ""
  · subst hr
    simp [resolveQualified, hget]
  · -- Neither the name nor what it lies in is a package, and so the empty package is left.
    have hself : t.get? rest = none := by
      rw [← Option.not_isSome_iff_eq_none]
      intro hs
      exact hr (hempty rest (mem_dottedHeads.mpr (.inl rfl)) hs)
    have hnone : t.enclosing? rest = none := by
      rw [enclosing?_eq_none_iff]
      intro q hq
      rw [← Bool.not_eq_true, encloses_iff]
      rintro ⟨hne, tail, h⟩
      exact hne (hempty q (mem_dottedHeads.mpr (.inr ⟨tail, h⟩)) hq)
    simp [resolveQualified, hself, hnone, hget]

/-- A name inside a package that has a name is found below the namespace of the package. -/
theorem resolveQualified_below {t : PackageTable} {package rest : String} {ns : Namespace}
    (hp : package ≠ "") (hget : t.get? package = some ns)
    (hlong : ∀ head ∈ dottedHeads (package ++ "." ++ rest), (t.get? head).isSome = true →
      head.length ≤ package.length) :
    t.resolveQualified (package ++ "." ++ rest) = ⟨ns.join (.parse rest), []⟩ := by
  have hself : t.get? (package ++ "." ++ rest) = none := by
    rw [← Option.not_isSome_iff_eq_none]
    intro hs
    have := hlong _ (mem_dottedHeads.mpr (.inl rfl)) hs
    simp only [String.length_append, show ".".length = 1 from rfl] at this
    omega
  have hencl : t.enclosing? (package ++ "." ++ rest) = some (package, ns) := by
    refine enclosing?_eq_some hget (encloses_iff.mpr ⟨hp, rest, rfl⟩) ?_
    intro q hq hqn
    obtain ⟨-, tail, h⟩ := encloses_iff.mp hqn
    exact hlong q (mem_dottedHeads.mpr (.inr ⟨tail, h⟩)) hq
  rw [resolveQualified, hself]
  simp only [hencl]
  rw [String.append_assoc, below_append, Namespace.parse_dot_append]

/-- A name inside a package is found below the namespace of the package, if no longer head of the
name is a package. -/
theorem resolveQualified_qualify {t : PackageTable} {package rest : String} {ns : Namespace}
    (hget : t.get? package = some ns)
    (hlong : ∀ head ∈ dottedHeads (qualify package rest), (t.get? head).isSome = true →
      head.length ≤ package.length) :
    t.resolveQualified (qualify package rest) = ⟨ns.join (.parse rest), []⟩ := by
  by_cases hp : package = ""
  · subst hp
    rw [qualify_empty] at hlong ⊢
    refine resolveQualified_root hget ?_
    intro head hh hs
    have := hlong head hh hs
    rw [String.length_empty, Nat.le_zero] at this
    simpa using this
  · rw [qualify_of_ne_empty hp] at hlong ⊢
    exact resolveQualified_below hp hget hlong

/-- A name lies in the table if one of its heads is a package, or if types without a package have an
entry. -/
def tracks (t : PackageTable) (name : String) : Bool :=
  (t.get? "").isSome || (dottedHeads name).any fun head => (t.get? head).isSome

theorem enclosing?_mem {t : PackageTable} {name package : String} {ns : Namespace}
    (h : t.enclosing? name = some (package, ns)) :
    t.get? package = some ns ∧ package ∈ dottedHeads name := by
  obtain ⟨he, hn⟩ := List.mem_filter.mp (List.maxOn?_mem h)
  obtain ⟨-, rest, hrest⟩ := encloses_iff.mp hn
  exact ⟨mem_entries_iff.mp he, mem_dottedHeads.mpr (.inr ⟨rest, hrest⟩)⟩

theorem tracks_of_head {t : PackageTable} {name head : String} (hh : head ∈ dottedHeads name)
    (hs : (t.get? head).isSome = true) : t.tracks name = true := by
  rw [tracks, Bool.or_eq_true, List.any_eq_true]
  exact .inr ⟨head, hh, hs⟩

/-- A name is not tracked if it is no package, lies in none, and there is no empty package. -/
theorem tracks_eq_false {t : PackageTable} {name : String} (hself : t.get? name = none)
    (hencl : t.enclosing? name = none) (hroot : t.get? "" = none) : t.tracks name = false := by
  rw [tracks, hroot, Option.isSome_none, Bool.false_or, List.any_eq_false]
  intro head hh hs
  -- A head is the name, or empty, or would be a package that encloses the name.
  rcases mem_dottedHeads.mp hh with rfl | hrest
  · rw [hself] at hs
    cases hs
  · have hne : head ≠ "" := by
      rintro rfl
      rw [hroot] at hs
      cases hs
    have := enclosing?_eq_none_iff.mp hencl head hs
    rw [encloses_iff.mpr ⟨hne, hrest⟩] at this
    cases this

/-- A name draws a warning exactly if the table does not track it. -/
theorem warnings_resolveQualified (t : PackageTable) (name : String) :
    (t.resolveQualified name).warnings =
      if t.tracks name then [] else [.untrackedPackage name] := by
  rw [resolveQualified]
  -- The cases are the steps of the look-up: the name itself, what encloses it, the empty package.
  cases hself : t.get? name with
  | some ns => rw [if_pos (tracks_of_head (mem_dottedHeads.mpr (.inl rfl)) (by simp [hself]))]
  | none =>
    cases hencl : t.enclosing? name with
    | some e =>
      obtain ⟨hget, hhead⟩ := enclosing?_mem hencl
      rw [if_pos (tracks_of_head hhead (by simp [hget]))]
    | none =>
      cases hroot : t.get? "" with
      | some ns => simp [tracks, hroot]
      | none =>
        rw [tracks_eq_false hself hencl hroot]
        rfl

/-- A reference must start with a dot; then the rest of it is looked up. -/
theorem resolve_eq (t : PackageTable) (reference : String) :
    t.resolve reference =
      if Reference.isQualified reference then
        .ok (t.resolveQualified (Reference.name reference))
      else .error (.unqualifiedReference reference) := by
  rw [resolve, Reference.isQualified, Reference.name]
  cases h : reference.toList with
  | nil => rfl
  | cons c cs =>
    by_cases hc : c = '.'
    · subst hc
      rfl
    · simp [hc]

end PackageTable

end ProtoPhp
