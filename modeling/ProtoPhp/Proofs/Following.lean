/-
Computations that follow references.

A computation follows a list of references if, whatever the log, it looks up
exactly these references in their order and then gives one value.  Following is
kept by the ways in which computations are put together, so that the references
of a whole file are found by adding up those of its parts.

* `Resolving.Follows.bind`, `Resolving.Follows.mapM` — one after the other;
* `Resolving.visit_nil_log` — what looking up a list of references comes to: the
  first reference that is not fully qualified, or the warnings.
-/
import ProtoPhp.Proofs.Grouping
import ProtoPhp.Proofs.Namespace.Table
import ProtoPhp.Proofs.References
import ProtoPhp.Resolving

namespace ProtoPhp

namespace PackageTable

/-- The class that a fully qualified reference stands for. -/
def target (t : PackageTable) (reference : String) : Namespace :=
  (t.resolveQualified (Reference.name reference)).target

/-- The PHP type of a field whose reference is fully qualified. -/
def valueType (t : PackageTable) (f : Descriptor.Field) : Php.ValueType :=
  match f.type with
  | .double | .float => .float
  | .int64 | .uint64 | .int32 | .fixed64 | .fixed32 | .uint32 | .sfixed32 | .sfixed64 | .sint32
  | .sint64 => .int
  | .bool => .bool
  | .string => .string
  | .bytes => .bytes
  | .message => .message (t.target (f.typeName.getD ""))
  | .enum => .enum (t.target (f.typeName.getD ""))
  | .group => .group (f.typeName.map t.target)

/-- A field with the PHP type that the table gives it. -/
def field (t : PackageTable) (f : Descriptor.Field) : Php.Field := ⟨f, t.valueType f⟩

/-- The warnings about a list of references: one for each distinct name that is not tracked, in the
order in which the names first come. -/
def warnings (t : PackageTable) (references : List String) : List Warning :=
  ((references.map Reference.name).filter fun name => !t.tracks name).eraseDups.map
    .untrackedPackage

end PackageTable

namespace Resolving

/-- Looks up a list of references, one after the other, and keeps only the log. -/
def visit (t : PackageTable) (references : List String) (log : List Warning) :
    Except Error (List Warning) :=
  references.foldlM (fun log r => Prod.snd <$> reference t r log) log

/-- A computation looks up exactly the given references, in order, and gives one value. -/
def Follows {α : Type} (t : PackageTable) (c : Resolving α) (references : List String) (x : α) :
    Prop :=
  ∀ log, c log = (fun log' => (x, log')) <$> visit t references log

variable {α β : Type} {t : PackageTable}

theorem visit_append (rs rs' : List String) (log : List Warning) :
    visit t (rs ++ rs') log = visit t rs log >>= visit t rs' :=
  List.foldlM_append

theorem Follows.pure (x : α) : Follows t (Pure.pure x) [] x := fun _ => rfl

theorem Follows.bind {c : Resolving α} {k : α → Resolving β} {rs rs' : List String} {x : α} {y : β}
    (hc : Follows t c rs x) (hk : Follows t (k x) rs' y) : Follows t (c >>= k) (rs ++ rs') y := by
  intro log
  rw [visit_append]
  show (c log >>= fun r => k r.1 r.2) = _
  rw [hc log]
  -- What ends the first part ends both; otherwise the second part starts from the log of the first.
  cases visit t rs log with
  | error e => rfl
  | ok log' => exact hk log'

theorem Follows.map {c : Resolving α} {rs : List String} {x : α} (hc : Follows t c rs x)
    (f : α → β) : Follows t (f <$> c) rs (f x) := by
  rw [← List.append_nil rs]
  exact hc.bind (k := fun x => Pure.pure (f x)) (Follows.pure (f x))

theorem Follows.bind_pure {c : Resolving α} {rs : List String} {x : α} (hc : Follows t c rs x)
    (f : α → β) : Follows t (c >>= fun x => Pure.pure (f x)) rs (f x) :=
  hc.map f

theorem Follows.mapM {f : β → Resolving α} {rs : β → List String} {g : β → α}
    (h : ∀ b, Follows t (f b) (rs b) (g b)) (bs : List β) :
    Follows t (bs.mapM f) (bs.flatMap rs) (bs.map g) := by
  induction bs with
  | nil => exact Follows.pure []
  | cons b bs ih =>
    rw [List.mapM_cons, List.flatMap_cons, List.map_cons]
    exact (h b).bind (ih.map (g b :: ·))

theorem follows_reference (t : PackageTable) (r : String) :
    Follows t (reference t r) [r] (t.target r) := by
  intro log
  rw [visit, List.foldlM_cons, reference, PackageTable.resolve_eq]
  by_cases hr : Reference.isQualified r = true
  · rw [if_pos hr]
    rfl
  · rw [if_neg hr]
    rfl

theorem follows_valueType (t : PackageTable) (f : Descriptor.Field) :
    Follows t (valueType t f) f.reference?.toList (t.valueType f) := by
  rw [valueType, PackageTable.valueType, Descriptor.Field.reference?]
  cases f.type
  case message => exact (follows_reference t _).map _
  case enum => exact (follows_reference t _).map _
  case group =>
    cases f.typeName with
    | none => exact Follows.pure _
    | some name => exact (follows_reference t name).map _
  all_goals exact Follows.pure _

theorem follows_field (t : PackageTable) (f : Descriptor.Field) :
    Follows t (field t f) f.reference?.toList (t.field f) :=
  (follows_valueType t f).map _

theorem flatMap_reference? (fs : List Descriptor.Field) :
    (fs.flatMap fun f => f.reference?.toList) = fs.filterMap Descriptor.Field.reference? := by
  induction fs with
  | nil => rfl
  | cons f fs ih =>
    rw [List.flatMap_cons, ih, List.filterMap_cons]
    cases f.reference? <;> rfl

theorem follows_fields (t : PackageTable) (fs : List Descriptor.Field) :
    Follows t (fs.mapM (field t)) (fs.filterMap Descriptor.Field.reference?) (fs.map t.field) := by
  rw [← flatMap_reference?]
  exact Follows.mapM (follows_field t) fs

/-- One reference either ends the run or adds its warning to the log. -/
theorem visit_singleton (t : PackageTable) (r : String) (log : List Warning) :
    visit t [r] log =
      if Reference.isQualified r then
        .ok (if t.tracks (Reference.name r) then log
          else note log (.untrackedPackage (Reference.name r)))
      else .error (.unqualifiedReference r) := by
  rw [visit, List.foldlM_cons, reference, PackageTable.resolve_eq]
  by_cases hr : Reference.isQualified r = true
  · rw [if_pos hr, if_pos hr]
    simp only [PackageTable.warnings_resolveQualified]
    by_cases ht : t.tracks (Reference.name r) = true
    · simp only [ht, if_true]
      rfl
    · simp only [ht, if_false, Bool.false_eq_true]
      rfl
  · rw [if_neg hr, if_neg hr]
    rfl

/-- The first reference that is not fully qualified ends the visit; without one, the names that are
not tracked join the log. -/
theorem visit_eq (t : PackageTable) (rs : List String) (log : List Warning) :
    visit t rs log =
      match rs.find? (!Reference.isQualified ·) with
      | some r => .error (.unqualifiedReference r)
      | none =>
        .ok (((rs.map Reference.name).filter fun name => !t.tracks name).foldl
          (fun log name => note log (.untrackedPackage name)) log) := by
  induction rs generalizing log with
  | nil => rfl
  | cons r rs ih =>
    rw [← List.singleton_append, visit_append, visit_singleton, List.singleton_append,
      List.find?_cons]
    by_cases hr : Reference.isQualified r = true
    · simp only [hr, if_true, Bool.not_true]
      show visit t rs _ = _
      rw [ih, List.map_cons, List.filter_cons]
      by_cases ht : t.tracks (Reference.name r) = true <;> simp [ht]
    · simp only [hr, if_false, Bool.not_false, Bool.false_eq_true]
      rfl

/-- Noting names from an empty log gives one warning for each distinct name. -/
theorem foldl_note (names : List String) :
    names.foldl (fun log name => note log (.untrackedPackage name)) [] =
      names.eraseDups.map Warning.untrackedPackage := by
  -- The warnings noted so far are those of the names kept so far.
  rw [← Grouping.foldl_keep]
  show names.foldl _ (List.map Warning.untrackedPackage []) = _
  refine List.foldl_hom (List.map Warning.untrackedPackage) fun seen name => ?_
  have hmem : Warning.untrackedPackage name ∈ seen.map Warning.untrackedPackage ↔ name ∈ seen := by
    simp
  rw [note]
  by_cases h : name ∈ seen
  · rw [if_pos h, if_pos (hmem.mpr h)]
  · rw [if_neg h, if_neg (mt hmem.mp h), List.map_append, List.map_singleton]

/-- From an empty log a visit ends in the first reference that is not fully qualified, or in the
warnings about all of them. -/
theorem visit_nil_log (t : PackageTable) (rs : List String) :
    visit t rs [] =
      match rs.find? (!Reference.isQualified ·) with
      | some r => .error (.unqualifiedReference r)
      | none => .ok (t.warnings rs) := by
  rw [visit_eq, foldl_note]
  rfl

end Resolving

end ProtoPhp
