/-
The classes that type names stand for.

A type name is a dot and a path of identifiers.  If the table gives its packages
namespaces of identifiers, then such a name stands for a class whose path is made
of words, and the path is empty at most if the name is a package itself.

* `PackageTable.hasWords_target` — the path is made of words;
* `PackageTable.target_ne_root` — it is not empty.
-/
import ProtoPhp.Proofs.FileNames
import ProtoPhp.Proofs.Following

namespace ProtoPhp

open Text

namespace Namespace

/-- All segments are words. -/
def HasWords (ns : Namespace) : Prop := ∀ s ∈ ns.segments, IsWord s

theorem HasWords.join {a b : Namespace} (ha : a.HasWords) (hb : b.HasWords) :
    (a.join b).HasWords := by
  intro s hs
  rcases List.mem_append.mp hs with hs | hs
  · exact ha s hs
  · exact hb s hs

theorem HasWords.child {ns : Namespace} (h : ns.HasWords) {name : String} (hname : IsWord name) :
    (ns.child name).HasWords := by
  intro s hs
  rcases List.mem_append.mp hs with hs | hs
  · exact h s hs
  · rwa [List.mem_singleton.mp hs]

/-- What is written with words and dots alone is read as words. -/
theorem hasWords_parse {text : String} (h : ∀ c ∈ text.toList, isWordChar c = true ∨ c = '.') :
    (parse text).HasWords := by
  intro s hs
  obtain ⟨hne, hdot, -⟩ := isPlain_of_mem_parse hs
  refine ⟨hne, fun c hc => ?_⟩
  obtain ⟨cs, hcs, rfl⟩ := List.mem_map.mp hs
  rw [segmentsOf, List.mem_filter] at hcs
  have hmem : c ∈ text.toList := by
    rw [String.toList_ofList] at hc
    exact (mem_of_mem_splitOnP hcs.1 c hc).1
  refine (h c hmem).resolve_right ?_
  rintro rfl
  exact hdot hc

theorem segmentsOf_ne_nil {cs : List Char} {c : Char} (hc : c ∈ cs)
    (hsep : isSeparator c = false) : segmentsOf cs ≠ [] := by
  induction cs with
  | nil => cases hc
  | cons x xs ih =>
    by_cases hx : isSeparator x = true
    · have hxs : c ∈ xs := by
        rcases List.mem_cons.mp hc with rfl | hc
        · rw [hsep] at hx
          cases hx
        · exact hc
      rw [← List.nil_append (x :: xs), segmentsOf_append_separator _ _ hx]
      exact List.append_ne_nil_of_right_ne_nil _ (ih hxs)
    · -- The first segment starts with this character.
      rw [segmentsOf, List.splitOnP_cons_eq_if_modifyHead, if_neg hx]
      cases hsplit : xs.splitOnP isSeparator with
      | nil => exact absurd hsplit (List.splitOnP_ne_nil _ xs)
      | cons first rest => simp

theorem parse_ne_root {text : String} {c : Char} (hc : c ∈ text.toList)
    (hsep : isSeparator c = false) : parse text ≠ root := by
  intro h
  exact segmentsOf_ne_nil hc hsep (List.map_eq_nil_iff.mp (congrArg segments h))

theorem HasWords.mem_toString {ns : Namespace} (h : ns.HasWords) {c : Char}
    (hc : c ∈ (toString ns).toList) : isWordChar c = true ∨ c = '\\' := by
  rcases mem_intercalate hc with hsep | ⟨s, hs, hc⟩
  · exact .inr (by simpa using hsep)
  · exact .inl ((h s hs).2 c hc)

/-- A namespace in PHP starts with a character of a word, unless it is the global one. -/
theorem HasWords.head?_toString {ns : Namespace} (h : ns.HasWords) (hne : ns ≠ root) :
    ∃ c, (toString ns).toList.head? = some c ∧ isWordChar c = true := by
  obtain ⟨segments⟩ := ns
  cases segments with
  | nil => exact absurd rfl hne
  | cons s rest =>
    have hs : IsWord s := h s List.mem_cons_self
    show ∃ c, ("\\".intercalate (s :: rest)).toList.head? = some c ∧ isWordChar c = true
    rw [head?_intercalate _ hs.1]
    exact hs.head?

end Namespace

/-- A dot, and identifiers with dots between them. -/
def IsTypeName (reference : String) : Prop :=
  ∃ names : List String, names ≠ [] ∧ (∀ n ∈ names, isIdentifier n = true) ∧
    reference = "." ++ ".".intercalate names

namespace IsTypeName

variable {reference : String}

theorem name_eq (h : IsTypeName reference) :
    ∃ names : List String, names ≠ [] ∧ (∀ n ∈ names, isIdentifier n = true) ∧
      Reference.name reference = ".".intercalate names := by
  obtain ⟨names, hne, hnames, rfl⟩ := h
  exact ⟨names, hne, hnames, Reference.name_dot_append _⟩

theorem mem_name (h : IsTypeName reference) {c : Char}
    (hc : c ∈ (Reference.name reference).toList) : isWordChar c = true ∨ c = '.' := by
  obtain ⟨names, -, hnames, hname⟩ := h.name_eq
  rw [hname] at hc
  rcases mem_intercalate hc with hsep | ⟨n, hn, hc⟩
  · exact .inr (by simpa using hsep)
  · exact .inl ((isWord_of_isIdentifier (hnames n hn)).2 c hc)

theorem mem_reference (h : IsTypeName reference) {c : Char} (hc : c ∈ reference.toList) :
    isWordChar c = true ∨ c = '.' := by
  obtain ⟨names, hne, hnames, rfl⟩ := h
  rw [String.toList_append, List.mem_append] at hc
  rcases hc with hc | hc
  · exact .inr (by simpa using hc)
  · exact mem_name ⟨names, hne, hnames, rfl⟩ (by rwa [Reference.name_dot_append])

theorem getLast?_name (h : IsTypeName reference) :
    ∃ c, (Reference.name reference).toList.getLast? = some c ∧ isWordChar c = true := by
  obtain ⟨names, hne, hnames, hname⟩ := h.name_eq
  obtain ⟨front, last, rfl⟩ : ∃ front last, names = front ++ [last] :=
    ⟨_, _, (List.dropLast_append_getLast hne).symm⟩
  have hword := isWord_of_isIdentifier (hnames last (by simp))
  rw [hname, getLast?_intercalate _ _ hword.1]
  exact hword.getLast?

end IsTypeName

namespace PackageTable

/-- The namespaces of all packages are made of identifiers. -/
def HasIdentifiers (t : PackageTable) : Prop :=
  ∀ e ∈ t.entries, ∀ s ∈ e.2.segments, isIdentifier s = true

instance (t : PackageTable) : Decidable t.HasIdentifiers :=
  inferInstanceAs (Decidable (∀ e ∈ t.entries, ∀ s ∈ e.2.segments, isIdentifier s = true))

variable {t : PackageTable}

theorem HasIdentifiers.hasWords (h : t.HasIdentifiers) {package : String} {ns : Namespace}
    (hget : t.get? package = some ns) : ns.HasWords := fun s hs =>
  isWord_of_isIdentifier (h (package, ns) (mem_entries_iff.mpr hget) s hs)

/-- What a name says below a package that encloses it is part of the name. -/
theorem mem_below {package name : String} {c : Char} (h : c ∈ (below package name).toList) :
    c ∈ name.toList := by
  rw [below, String.toList_ofList] at h
  exact List.mem_of_mem_drop h

/-- The path of the class that a type name stands for is made of words. -/
theorem hasWords_target (ht : t.HasIdentifiers) {reference : String} (h : IsTypeName reference) :
    (t.target reference).HasWords := by
  have hname := Namespace.hasWords_parse fun c hc => h.mem_name hc
  rw [target, resolveQualified]
  -- The cases are the steps of the look-up: the name itself, what encloses it, the empty package.
  cases hself : t.get? (Reference.name reference) with
  | some ns => exact ht.hasWords hself
  | none =>
    cases hencl : t.enclosing? (Reference.name reference) with
    | some e =>
      obtain ⟨package, ns⟩ := e
      have hbelow : (Namespace.parse (below package (Reference.name reference))).HasWords :=
        Namespace.hasWords_parse fun c hc => h.mem_name (mem_below hc)
      exact (ht.hasWords (enclosing?_mem hencl).1).join hbelow
    | none =>
      cases hroot : t.get? "" with
      | some ns => exact (ht.hasWords hroot).join hname
      | none => exact hname

/-- A type name that is no package stands for a class with a name. -/
theorem target_ne_root {reference : String} (h : IsTypeName reference)
    (hself : t.get? (Reference.name reference) = none) : t.target reference ≠ .root := by
  obtain ⟨c, hlast, hc⟩ := h.getLast?_name
  have hsep : Namespace.isSeparator c = false := by
    by_contra hne
    rw [Bool.not_eq_false, Namespace.isSeparator, Bool.or_eq_true, beq_iff_eq, beq_iff_eq] at hne
    rcases hne with rfl | rfl <;> cases hc
  have hjoin : ∀ ns : Namespace, ∀ text : String, c ∈ text.toList →
      ns.join (.parse text) ≠ .root := by
    intro ns text hmem e
    exact Namespace.parse_ne_root hmem hsep
      (congrArg Namespace.mk (List.append_eq_nil_iff.mp (congrArg Namespace.segments e)).2)
  have hname : c ∈ (Reference.name reference).toList := List.mem_of_getLast? hlast
  rw [target, resolveQualified, hself]
  cases hencl : t.enclosing? (Reference.name reference) with
  | some e =>
    obtain ⟨package, ns⟩ := e
    refine hjoin ns _ ?_
    -- The last character of the name stands below the package, since the package ends before a dot.
    obtain ⟨-, rest, hrest⟩ := encloses_iff.mp (List.mem_filter.mp (List.maxOn?_mem hencl)).2
    have hne : ("." ++ rest).toList ≠ [] := by simp
    rw [hrest, String.append_assoc, below_append]
    rw [hrest, String.append_assoc, String.toList_append,
      List.getLast?_append_of_ne_nil _ hne] at hlast
    exact List.mem_of_getLast? hlast
  | none =>
    cases hroot : t.get? "" with
    | some ns => exact hjoin ns _ hname
    | none => exact Namespace.parse_ne_root hname hsep

end PackageTable

end ProtoPhp
