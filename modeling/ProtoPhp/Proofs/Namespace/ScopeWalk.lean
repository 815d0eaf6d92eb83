/-
Walking up the scopes around a name.

A reference can be looked up without a search through the table: the name itself
is tried as a package, then what stands before its last dot, and so on to the
left, and at last the empty package.  The first of these that the table has
decides.  This walk and the search for the longest package that encloses the name
come to the same, because what stands before the dots gets shorter from step to
step (`Text.pairwise_cuts`).

* `Text.cuts` — the ways to cut a name before a dot, the longest front first;
* `PackageTable.walkUp?` — the class that the walk finds;
* `PackageTable.resolveQualified_eq_walkUp?` — the search finds the same;
* `PackageTable.resolveInto_eq_walk` — the result of a reference and the log after it.
-/
import ProtoPhp.Proofs.Locality

namespace ProtoPhp

namespace Text

/-- The name with nothing left of it, then what stands before each dot with what is left from there
on, the last dot first. -/
def cutsOf : List Char → List (List Char × List Char)
  | [] => [([], [])]
  | c :: cs =>
    let longer := (cutsOf cs).map fun cut => (c :: cut.1, cut.2)
    if c = '.' then longer ++ [([], c :: cs)] else longer

/-- The name with nothing left of it, then what stands before each dot with what is left from there
on, the last dot first. -/
def cuts (name : String) : List (String × String) :=
  (cutsOf name.toList).map fun cut => (String.ofList cut.1, String.ofList cut.2)

theorem mem_cutsOf_cons {c : Char} {cs : List Char} {cut : List Char × List Char} :
    cut ∈ cutsOf (c :: cs) ↔
      (∃ tail ∈ cutsOf cs, cut = (c :: tail.1, tail.2)) ∨ c = '.' ∧ cut = ([], c :: cs) := by
  rw [cutsOf]
  by_cases hc : c = '.'
  · simp [hc, eq_comm]
  · simp [hc, eq_comm]

/-- A cut leaves nothing, or stands right before a dot. -/
theorem mem_cutsOf {cs front rest : List Char} :
    (front, rest) ∈ cutsOf cs ↔ cs = front ++ rest ∧ (rest = [] ∨ rest.head? = some '.') := by
  induction cs generalizing front with
  | nil =>
    rw [cutsOf, List.mem_singleton, Prod.mk.injEq, List.nil_eq_append_iff]
    exact ⟨fun h => ⟨h, .inl h.2⟩, And.left⟩
  | cons c cs ih =>
    rw [mem_cutsOf_cons]
    constructor
    · rintro (⟨⟨front, rest⟩, htail, h⟩ | ⟨rfl, h⟩)
      · cases h
        obtain ⟨rfl, hrest⟩ := ih.mp htail
        exact ⟨rfl, hrest⟩
      · cases h
        exact ⟨rfl, .inr rfl⟩
    · rintro ⟨h, hrest⟩
      cases front with
      | nil =>
        -- Nothing stands before the cut, and so the name itself starts with a dot.
        subst h
        have hc : c = '.' := by simpa using hrest
        exact .inr ⟨hc, rfl⟩
      | cons d front =>
        cases h
        exact .inl ⟨(front, rest), ih.mpr ⟨rfl, hrest⟩, rfl⟩

/-- The fronts of the cuts get shorter and shorter. -/
theorem pairwise_cutsOf (cs : List Char) :
    (cutsOf cs).Pairwise fun cut shorter => shorter.1.length < cut.1.length := by
  induction cs with
  | nil => exact List.pairwise_singleton _ _
  | cons c cs ih =>
    have hlonger : ((cutsOf cs).map fun cut => (c :: cut.1, cut.2)).Pairwise
        fun cut shorter => shorter.1.length < cut.1.length :=
      List.pairwise_map.mpr (ih.imp Nat.succ_lt_succ)
    rw [cutsOf]
    by_cases hc : c = '.'
    · rw [if_pos hc, List.pairwise_append]
      refine ⟨hlonger, List.pairwise_singleton _ _, ?_⟩
      -- Only the last cut has an empty front.
      intro cut hcut last hlast
      obtain ⟨tail, -, rfl⟩ := List.mem_map.mp hcut
      rw [List.mem_singleton.mp hlast]
      exact Nat.succ_pos _
    · rw [if_neg hc]
      exact hlonger

/-- A cut leaves nothing of a name, or it leaves a dot and what follows it. -/
theorem mem_cuts {name front rest : String} :
    (front, rest) ∈ cuts name ↔
      front = name ∧ rest = "" ∨ ∃ tail, rest = "." ++ tail ∧ name = front ++ "." ++ tail := by
  have hcuts : (front, rest) ∈ cuts name ↔ (front.toList, rest.toList) ∈ cutsOf name.toList := by
    rw [cuts, List.mem_map]
    constructor
    · rintro ⟨cut, hcut, h⟩
      cases h
      rwa [String.toList_ofList, String.toList_ofList]
    · intro h
      exact ⟨_, h, by simp⟩
  rw [hcuts, mem_cutsOf]
  constructor
  · rintro ⟨hname, hrest | hrest⟩
    · have hempty : rest = "" := by simpa using hrest
      subst hempty
      exact .inl ⟨String.ext (by simpa using hname.symm), rfl⟩
    · obtain ⟨cs, hcs⟩ := List.head?_eq_some_iff.mp hrest
      refine .inr ⟨String.ofList cs, String.ext (by simpa using hcs), String.ext ?_⟩
      simpa [hcs] using hname
  · rintro (⟨rfl, rfl⟩ | ⟨tail, rfl, rfl⟩)
    · simp
    · simp

/-- The fronts of the cuts get shorter and shorter. -/
theorem pairwise_cuts (name : String) :
    (cuts name).Pairwise fun cut shorter => shorter.1.length < cut.1.length := by
  refine List.pairwise_map.mpr ((pairwise_cutsOf name.toList).imp ?_)
  simp

/-- The cuts with longer fronts come before a cut. -/
theorem mem_of_longer_front {name : String} {longer shorter : List (String × String)}
    {cut other : String × String} (hcuts : cuts name = longer ++ cut :: shorter)
    (hother : other ∈ cuts name) (hlen : cut.1.length < other.1.length) : other ∈ longer := by
  have hpairwise := pairwise_cuts name
  rw [hcuts] at hother hpairwise
  have hshorter := (List.pairwise_cons.mp (List.pairwise_append.mp hpairwise).2.1).1
  rw [List.mem_append, List.mem_cons] at hother
  rcases hother with hother | rfl | hother
  · exact hother
  · exact absurd hlen (Nat.lt_irrefl _)
  · exact absurd hlen (Nat.lt_asymm (hshorter other hother))

end Text

namespace PackageTable

open Text

/-- The class that is found by walking up from a name: the name itself is tried as a package, then
what stands before each of its dots, the last one first, and then the empty package.  What the first
package of the table leaves of the name is found below its namespace. -/
def walkUp? (t : PackageTable) (name : String) : Option Namespace :=
  (cuts name ++ [("", name)]).findSome? fun cut => (t.get? cut.1).map (·.join (.parse cut.2))

variable {t : PackageTable} {name : String}

/-- A package that is the name or encloses it is the front of a cut. -/
theorem exists_cut_of_encloses {package : String} (h : encloses package name = true) :
    ∃ rest, (package, rest) ∈ cuts name := by
  obtain ⟨-, rest, hrest⟩ := encloses_iff.mp h
  exact ⟨_, mem_cuts.mpr (.inr ⟨rest, rfl, hrest⟩)⟩

/-- If no front of a cut is a package, only the empty package is left. -/
theorem resolveQualified_of_no_cut (h : ∀ cut ∈ cuts name, t.get? cut.1 = none) :
    t.resolveQualified name =
      match t.get? "" with
      | some ns => ⟨ns.join (.parse name), []⟩
      | none => ⟨.parse name, [.untrackedPackage name]⟩ := by
  have hself : t.get? name = none := h (name, "") (mem_cuts.mpr (.inl ⟨rfl, rfl⟩))
  have hencl : t.enclosing? name = none := by
    rw [enclosing?_eq_none_iff]
    intro package hp
    rw [← Bool.not_eq_true]
    intro hn
    obtain ⟨rest, hcut⟩ := exists_cut_of_encloses hn
    rw [h _ hcut] at hp
    cases hp
  cases hroot : t.get? "" <;> simp only [resolveQualified, hself, hencl, hroot]

/-- The longest front of a cut that is a package decides. -/
theorem resolveQualified_of_cut {longer shorter : List (String × String)} {front rest : String}
    {ns : Namespace} (hcuts : cuts name = longer ++ (front, rest) :: shorter)
    (hget : t.get? front = some ns) (hlonger : ∀ cut ∈ longer, t.get? cut.1 = none) :
    t.resolveQualified name = ⟨ns.join (.parse rest), []⟩ := by
  have hnone : ∀ cut ∈ cuts name, front.length < cut.1.length → t.get? cut.1 = none :=
    fun cut hcut hlen => hlonger cut (mem_of_longer_front hcuts hcut hlen)
  have hlong : ∀ q, (t.get? q).isSome = true → encloses q name = true →
      q.length ≤ front.length := by
    intro q hq hqn
    obtain ⟨tail, hcut⟩ := exists_cut_of_encloses hqn
    by_contra hlen
    rw [hnone _ hcut (Nat.lt_of_not_le hlen)] at hq
    cases hq
  have hmem : (front, rest) ∈ cuts name := by simp [hcuts]
  rcases mem_cuts.mp hmem with ⟨rfl, rfl⟩ | ⟨tail, rfl, rfl⟩
  · simp [resolveQualified, hget]
  · have hself : t.get? (front ++ "." ++ tail) = none := by
      refine hnone (_, "") (mem_cuts.mpr (.inl ⟨rfl, rfl⟩)) ?_
      simp only [String.length_append, show ".".length = 1 from rfl]
      omega
    by_cases hfront : front = ""
    · -- Before a leading dot stands the empty package, which encloses nothing by itself.
      subst hfront
      have hencl : t.enclosing? ("" ++ "." ++ tail) = none := by
        rw [enclosing?_eq_none_iff]
        intro q hq
        rw [← Bool.not_eq_true]
        intro hqn
        have hlen := hlong q hq hqn
        rw [String.length_empty, Nat.le_zero] at hlen
        exact (encloses_iff.mp hqn).1 (by simpa using hlen)
      rw [resolveQualified, hself]
      simp only [hencl, hget]
      rw [String.empty_append]
    · have hencl : t.enclosing? (front ++ "." ++ tail) = some (front, ns) :=
        enclosing?_eq_some hget (encloses_iff.mpr ⟨hfront, tail, rfl⟩) hlong
      simp only [resolveQualified, hself, hencl]
      rw [String.append_assoc, below_append]

/-- The search for the longest package around a name finds what walking up finds. -/
theorem resolveQualified_eq_walkUp? (t : PackageTable) (name : String) :
    t.resolveQualified name =
      match t.walkUp? name with
      | some target => ⟨target, []⟩
      | none => ⟨.parse name, [.untrackedPackage name]⟩ := by
  rw [walkUp?, List.findSome?_append]
  cases hfirst : (cuts name).findSome? fun cut => (t.get? cut.1).map (·.join (.parse cut.2)) with
  | none =>
    have hnone : ∀ cut ∈ cuts name, t.get? cut.1 = none := by
      simpa [List.findSome?_eq_none_iff] using hfirst
    rw [resolveQualified_of_no_cut hnone]
    cases hroot : t.get? "" <;> simp [hroot]
  | some target =>
    obtain ⟨longer, ⟨front, rest⟩, shorter, hcuts, hcut, hlonger⟩ :=
      List.findSome?_eq_some_iff.mp hfirst
    obtain ⟨ns, hget, rfl⟩ := Option.map_eq_some_iff.mp hcut
    rw [resolveQualified_of_cut hcuts hget (by simpa using hlonger)]
    rfl

/-- A reference that does not start with a dot is refused, and the log stays as it is.  A name behind a
dot stands for the class that is found by walking up from it; if there is none, it stands for itself
and is noted at the end of the log.  Tables that keep the same last namespace of each package give the
same results, in whatever order the packages come. -/
theorem resolveInto_eq_walk :
    (∀ (t : PackageTable) (log : List Warning) (reference : String),
      (∀ name, reference ≠ "." ++ name) →
        t.resolveInto log reference = (.error (.unqualifiedReference reference), log)) ∧
      (∀ (t : PackageTable) (log : List Warning) (name : String),
        t.resolveInto log ("." ++ name) =
          match t.walkUp? name with
          | some target => (.ok target, log)
          | none => (.ok (.parse name), log ++ [.untrackedPackage name])) ∧
      ∀ entries entries' : List (String × Namespace),
        (∀ package, lastNamespace entries package = lastNamespace entries' package) →
          ∀ log reference, (ofList entries).resolveInto log reference =
            (ofList entries').resolveInto log reference := by
  refine ⟨?_, ?_, ?_⟩
  · intro t log reference h
    have hq : ¬ Reference.isQualified reference = true := fun hq =>
      h _ (Reference.eq_dot_append_name hq)
    rw [resolveInto, resolve_eq, if_neg hq]
  · intro t log name
    rw [resolveInto, resolve_eq, if_pos (Reference.isQualified_dot_append name),
      Reference.name_dot_append, resolveQualified_eq_walkUp?]
    cases t.walkUp? name with
    | some target => exact congrArg (Except.ok target, ·) (List.append_nil log)
    | none => rfl
  · intro entries entries' h log reference
    have hget : ∀ package, (ofList entries).get? package = (ofList entries').get? package := by
      intro package
      rw [get?_ofList_eq_last, get?_ofList_eq_last, h]
    rw [resolveInto, resolveInto, resolve_congr (hget "") fun package _ => hget package]

/-- A package that only looks like a beginning of the name has no say, however the dots stand; an
earlier entry of a package has none either. -/
theorem resolveInto_eq_walk_look_alike :
    let entries := [("a", .parse "Old"), ("a.b", .parse "B"), ("a", .parse "A")]
    let entries' := [("a.b", .parse "Old"), ("a", .parse "A"), ("a.b", .parse "B")]
    let log := [Warning.untrackedPackage "x"]
    (ofList entries).resolveInto log "a.b.N" = (.error (.unqualifiedReference "a.b.N"), log) ∧
      (ofList entries).resolveInto log ".a.bc..N" = (.ok ⟨["A", "bc", "N"]⟩, log) ∧
      (ofList entries').resolveInto log ".a.b.N." = (.ok ⟨["B", "N"]⟩, log) ∧
      (ofList entries').resolveInto log ".ab.N" =
        (.ok ⟨["ab", "N"]⟩, log ++ [.untrackedPackage "ab.N"]) := by
  intro entries entries' log
  obtain ⟨hrefused, hwalk, horder⟩ := resolveInto_eq_walk
  have hlast : ∀ package, lastNamespace entries package = lastNamespace entries' package := by
    intro package
    by_cases ha : package = "a"
    · subst ha
      rfl
    · by_cases hb : package = "a.b"
      · subst hb
        rfl
      · have ha : ("a" == package) = false := by simpa using Ne.symm ha
        have hb : ("a.b" == package) = false := by simpa using Ne.symm hb
        simp [lastNamespace, entries, entries', ha, hb]
  refine ⟨hrefused _ log _ ?_, hwalk _ log "a.bc..N", ?_, hwalk _ log "ab.N"⟩
  · intro name h
    have hhead := congrArg (·.toList.head?) h
    simp at hhead
  · rw [← horder entries entries' hlast]
    exact hwalk _ log "a.b.N."

end PackageTable

end ProtoPhp
