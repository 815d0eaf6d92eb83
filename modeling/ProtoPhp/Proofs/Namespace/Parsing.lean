/-
Reading written namespaces.

A separator splits a written namespace into what stands before it and what
stands after it, and each side can be read alone.  Everything else follows from
this one equation (`segmentsOf_append_separator`).

* `Namespace.parse_append_dot` — a dot joins two written namespaces;
* `Namespace.isPlain_of_mem_parse` — what is read has plain segments;
* `Namespace.parse_intercalate`, `Namespace.parse_toString` — a path of plain
  names reads back from its dotted form and from its form in PHP;
* `Namespace.parse_join_and_readBack` — reading takes separators to joins, and
  the namespaces that read back are those with plain segments.
-/
import ProtoPhp.Namespace.Basic
import ProtoPhp.Proofs.Text.Splitting

namespace ProtoPhp.Namespace

/-- A name that is one segment when it is read as a written namespace. -/
def IsPlain (name : String) : Prop := name ≠ "" ∧ '.' ∉ name.toList ∧ '\\' ∉ name.toList

instance (name : String) : Decidable (IsPlain name) :=
  inferInstanceAs (Decidable (name ≠ "" ∧ '.' ∉ name.toList ∧ '\\' ∉ name.toList))

/-- What stands before a separator and what stands after it are read apart. -/
theorem segmentsOf_append_separator (as bs : List Char) {c : Char} (hc : isSeparator c = true) :
    segmentsOf (as ++ c :: bs) = segmentsOf as ++ segmentsOf bs := by
  rw [segmentsOf, List.splitOnP_append_cons as bs hc, List.filter_append]
  rfl

theorem segmentsOf_of_no_separator {cs : List Char} (hne : cs ≠ [])
    (h : ∀ c ∈ cs, isSeparator c = false) : segmentsOf cs = [cs] := by
  rw [segmentsOf, List.splitOnP_eq_singleton h]
  simp [hne]

@[simp] theorem parse_empty : parse "" = root := rfl

/-- A separator joins two written namespaces. -/
theorem parse_append_separator (a b : String) {sep : String} {c : Char} (hsep : sep.toList = [c])
    (hc : isSeparator c = true) : parse (a ++ sep ++ b) = (parse a).join (parse b) := by
  have h : (a ++ sep ++ b).toList = a.toList ++ c :: b.toList := by simp [hsep]
  rw [parse, h, segmentsOf_append_separator _ _ hc, List.map_append]
  rfl

/-- A dot joins two written namespaces. -/
theorem parse_append_dot (a b : String) : parse (a ++ "." ++ b) = (parse a).join (parse b) :=
  parse_append_separator a b (c := '.') (by simp) rfl

/-- A dot in front of a written namespace does not count. -/
theorem parse_dot_append (b : String) : parse ("." ++ b) = parse b := by
  have h := parse_append_dot "" b
  rwa [String.empty_append, parse_empty, root_join] at h

/-- The segments of a written namespace are plain. -/
theorem isPlain_of_mem_parse {text segment : String} (h : segment ∈ (parse text).segments) :
    IsPlain segment := by
  obtain ⟨cs, hcs, rfl⟩ := List.mem_map.mp h
  rw [segmentsOf, List.mem_filter] at hcs
  have hfree : ∀ c, isSeparator c = true → c ∉ (String.ofList cs).toList := by
    intro c hc hmem
    rw [String.toList_ofList] at hmem
    rw [Text.eq_false_of_mem_splitOnP hcs.1 c hmem] at hc
    cases hc
  refine ⟨?_, hfree _ rfl, hfree _ rfl⟩
  simpa using hcs.2

theorem parse_of_isPlain {name : String} (h : IsPlain name) : parse name = ⟨[name]⟩ := by
  obtain ⟨hne, hdot, hback⟩ := h
  have hcs : ∀ c ∈ name.toList, isSeparator c = false := by
    intro c hc
    have h1 : c ≠ '.' := fun e => hdot (e ▸ hc)
    have h2 : c ≠ '\\' := fun e => hback (e ▸ hc)
    simp [isSeparator, h1, h2]
  rw [parse, segmentsOf_of_no_separator (by simpa using hne) hcs]
  simp

/-- A path of plain names reads back from its names with a separator between them. -/
theorem parse_intercalate_separator {path : List String} (h : ∀ name ∈ path, IsPlain name)
    {sep : String} {c : Char} (hsep : sep.toList = [c]) (hc : isSeparator c = true) :
    parse (sep.intercalate path) = ⟨path⟩ := by
  induction path with
  | nil => rfl
  | cons name rest ih =>
    have hname := parse_of_isPlain (h name List.mem_cons_self)
    have hrest := ih fun n hn => h n (List.mem_cons_of_mem _ hn)
    cases rest with
    | nil => rw [String.intercalate_singleton, hname]
    | cons next rest =>
      rw [String.intercalate_cons_cons, parse_append_separator _ _ hsep hc, hname, hrest]
      rfl

/-- A path of plain names reads back from its dotted form. -/
theorem parse_intercalate {path : List String} (h : ∀ name ∈ path, IsPlain name) :
    parse (".".intercalate path) = ⟨path⟩ :=
  parse_intercalate_separator h (c := '.') (by simp) rfl

/-- A namespace with plain segments reads back from its form in PHP. -/
theorem parse_toString {ns : Namespace} (h : ∀ s ∈ ns.segments, IsPlain s) :
    parse (toString ns) = ns :=
  parse_intercalate_separator h (c := '\\') (by simp) rfl

/-- A namespace reads back from its segments with a separator between them only if the segments are
plain. -/
theorem parse_intercalate_separator_eq_iff (ns : Namespace) {sep : String} {c : Char}
    (hsep : sep.toList = [c]) (hc : isSeparator c = true) :
    parse (sep.intercalate ns.segments) = ns ↔ ∀ s ∈ ns.segments, IsPlain s := by
  constructor
  · intro h s hs
    rw [← h] at hs
    exact isPlain_of_mem_parse hs
  · intro h
    exact parse_intercalate_separator h hsep hc

theorem parse_toString_eq_iff (ns : Namespace) :
    parse (toString ns) = ns ↔ ∀ s ∈ ns.segments, IsPlain s :=
  parse_intercalate_separator_eq_iff ns (c := '\\') (by simp) rfl

theorem parse_dotted_eq_iff (ns : Namespace) :
    parse ns.dotted = ns ↔ ∀ s ∈ ns.segments, IsPlain s :=
  parse_intercalate_separator_eq_iff ns (c := '.') (by simp) rfl

/-- Reading takes both separators to joins, and joins form a monoid with the global namespace.  What is
read has plain segments, none of them empty or with a separator.  Exactly the namespaces with such
segments read back from their form in PHP, and exactly they read back from their dotted form.  So a
namespace that was read reads back from both. -/
theorem parse_join_and_readBack :
    (∀ a b : String, parse (a ++ "." ++ b) = (parse a).join (parse b) ∧
      parse (a ++ "\\" ++ b) = (parse a).join (parse b)) ∧
    (∀ a b c : Namespace, (a.join b).join c = a.join (b.join c)) ∧
    (∀ ns : Namespace, ns.join root = ns ∧ root.join ns = ns) ∧
    (∀ text : String, ∀ s ∈ (parse text).segments, s ≠ "" ∧ '.' ∉ s.toList ∧ '\\' ∉ s.toList) ∧
    (∀ ns : Namespace,
      (parse (toString ns) = ns ↔
        ∀ s ∈ ns.segments, s ≠ "" ∧ '.' ∉ s.toList ∧ '\\' ∉ s.toList) ∧
      (parse ns.dotted = ns ↔
        ∀ s ∈ ns.segments, s ≠ "" ∧ '.' ∉ s.toList ∧ '\\' ∉ s.toList)) ∧
    ∀ text : String, parse (toString (parse text)) = parse text ∧
      parse (parse text).dotted = parse text := by
  have hplain : ∀ text : String, ∀ s ∈ (parse text).segments, IsPlain s := fun text s hs =>
    isPlain_of_mem_parse hs
  refine ⟨fun a b => ⟨parse_append_dot a b, ?_⟩, join_assoc, fun ns => ⟨join_root ns, root_join ns⟩,
    hplain, fun ns => ⟨parse_toString_eq_iff ns, parse_dotted_eq_iff ns⟩, fun text => ⟨?_, ?_⟩⟩
  · exact parse_append_separator a b (c := '\\') (by simp) rfl
  · exact (parse_toString_eq_iff _).mpr (hplain text)
  · exact (parse_dotted_eq_iff _).mpr (hplain text)

/-- Separators at both ends and next to each other do not count; a segment with a separator in it is
lost when it is written. -/
example : parse "\\a..b\\.c." = ⟨["a", "b", "c"]⟩ ∧
    parse (toString (root.child "a.b")) = ⟨["a", "b"]⟩ := by
  decide

end ProtoPhp.Namespace
