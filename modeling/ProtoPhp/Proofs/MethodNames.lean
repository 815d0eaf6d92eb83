/-
The names of the methods of a class.

PHP refuses a class that declares two methods of one name, and it does not tell upper
from lower case.  The accessors of a field are named by a verb and the name of the
field in Pascal case, and one of a repeated field has a word behind it.  So the names
of the accessors of two fields whose names differ without regard to case and
underscores are apart, but for one case: a field may be named like the list of
another one.

* `Php.declaredMethods` — the names of the methods that code declares;
* `SourceUnit.declaredMethods_eq`, `SourceUnit.map_name_methods` — those of the class of a
  message, and that its source shows the same;
* `SourceUnit.nodup_declaredMethods_iff` — when no two of them are the same.
-/
import ProtoPhp.Pool.Definition
import ProtoPhp.Proofs.Accessors
import ProtoPhp.Proofs.Php.ClassHead

namespace ProtoPhp

open Descriptor Text

namespace Php

/-- What stands in front of the name of a method. -/
def methodFronts : List String := ["public function ", "public static function "]

/-- The name of the method that a line declares. -/
def declaredName? (text : String) : Option String :=
  (methodFronts.find? fun front => front.toList.isPrefixOf text.toList).map fun front =>
    String.ofList ((text.toList.drop front.length).takeWhile (· != '('))

/-- The names of the methods that code declares, line by line. -/
def declaredMethods (code : Code) : List String := code.filterMap fun l => declaredName? l.text

/-- A name as PHP compares it. -/
def lowerCase (name : String) : String := String.ofList (lowerChars name.toList)

theorem lowerCase_append (a b : String) : lowerCase (a ++ b) = lowerCase a ++ lowerCase b := by
  apply String.ext
  simp [lowerCase, lowerChars]

section DeclaredMethods

variable {a b code : Code}

theorem declaredMethods_append : declaredMethods (a ++ b) = declaredMethods a ++ declaredMethods b :=
  List.filterMap_append

theorem declaredMethods_cons (l : Line) :
    declaredMethods (l :: code) = (declaredName? l.text).toList ++ declaredMethods code := by
  rw [declaredMethods, List.filterMap_cons]
  cases declaredName? l.text <;> rfl

theorem declaredMethods_deepen (n : Nat) : declaredMethods (deepen n code) = declaredMethods code :=
  List.filterMap_map

theorem declaredMethods_lines (texts : List String) :
    declaredMethods (lines texts) = texts.filterMap declaredName? := List.filterMap_map

theorem declaredMethods_flatMap {α : Type} (f : α → Code) (xs : List α) :
    declaredMethods (xs.flatMap f) = xs.flatMap fun x => declaredMethods (f x) :=
  List.filterMap_flatMap

/-- A block declares what opens it and what is inside. -/
theorem declaredMethods_block (opening : String) :
    declaredMethods (block opening code) = (declaredName? opening).toList ++ declaredMethods code := by
  have hclosing : declaredMethods (lines ["\x7d"]) = [] := by decide
  have hcode : block opening code = ⟨0, opening⟩ :: (deepen 1 code ++ lines ["\x7d"]) := rfl
  rw [hcode, declaredMethods_cons, declaredMethods_append, declaredMethods_deepen, hclosing,
    List.append_nil]

theorem declaredMethods_eq_nil {texts : List String} (h : ∀ s ∈ texts, declaredName? s = none) :
    declaredMethods (lines texts) = [] := by
  rw [declaredMethods_lines]
  exact List.filterMap_eq_nil_iff.mpr h

/-- A line that starts like no method declares none. -/
theorem declaredName?_of_head? {text : String} {c : Char} (h : text.toList.head? = some c)
    (hc : c ≠ 'p') : declaredName? text = none := by
  obtain ⟨tail, htail⟩ := List.head?_eq_some_iff.mp h
  have hnone : methodFronts.find? (fun front => front.toList.isPrefixOf text.toList) = none := by
    rw [List.find?_eq_none]
    simp [methodFronts, htail, hc.symm]
  rw [declaredName?, hnone]
  rfl

theorem declaredName?_property (rest : String) : declaredName? ("public $" ++ rest) = none := by
  have hnone : methodFronts.find? (fun front => front.toList.isPrefixOf ("public $" ++ rest).toList) =
      none := by
    rw [List.find?_eq_none]
    simp [methodFronts]
  rw [declaredName?, hnone]
  rfl

/-- The name of a method ends at the first parenthesis. -/
theorem declaredName?_method {name : String} (h : '(' ∉ name.toList) (rest : String) :
    declaredName? ("public function " ++ name ++ "(" ++ rest) = some name := by
  have htext : ("public function " ++ name ++ "(" ++ rest).toList =
      "public function ".toList ++ (name.toList ++ '(' :: rest.toList) := by simp
  have hfront : methodFronts.find? (fun front =>
      front.toList.isPrefixOf ("public function ".toList ++ (name.toList ++ '(' :: rest.toList))) =
        some "public function " :=
    List.find?_cons_of_pos (List.isPrefixOf_iff_prefix.mpr (List.prefix_append _ _))
  have hname : (name.toList ++ '(' :: rest.toList).takeWhile (· != '(') = name.toList := by
    rw [List.takeWhile_append_of_pos fun c hc => ?_]
    · simp
    · simpa using ne_of_mem_of_not_mem hc h
  rw [declaredName?, htext, hfront, Option.map_some, ← String.length_toList, List.drop_left, hname,
    String.ofList_toList]

end DeclaredMethods

/-- The statements about a field declare no method. -/
theorem declaredMethods_metadata (f : Field) (name : String) :
    declaredMethods (f.metadata name) = [] := by
  refine declaredMethods_eq_nil fun s hs => ?_
  have hhead : s.toList.head? = some '/' ∨ s.toList.head? = some '$' := by
    simp only [List.mem_append, List.mem_cons, List.not_mem_nil, or_false, Option.mem_toList,
      Option.map_eq_some_iff] at hs
    rcases hs with ((rfl | rfl | rfl | rfl | rfl | rfl) | ⟨target, -, rfl⟩) | ⟨value, -, rfl⟩ <;> simp
  rcases hhead with h | h <;> exact declaredName?_of_head? h (by decide)

theorem declaredMethods_property (f : Field) : declaredMethods f.property = [] := by
  have hcomment : ∀ rest, declaredName? ("/** @var " ++ rest) = none := fun rest =>
    declaredName?_of_head? (c := '/') (by simp) (by decide)
  have hblank : declaredName? "" = none := by decide
  rw [Field.property]
  split <;>
  · refine declaredMethods_eq_nil fun s hs => ?_
    simp only [List.mem_cons, List.not_mem_nil, or_false] at hs
    rcases hs with rfl | rfl | rfl
    · simpa only [String.append_assoc] using hcomment _
    · simpa only [String.append_assoc] using declaredName?_property _
    · exact hblank

/-- An accessor declares itself. -/
theorem declaredMethods_method {a : Method} (h : '(' ∉ a.name.toList) :
    declaredMethods a.code = [a.name] := by
  have hdoc : declaredMethods a.doc.code = [] := by
    refine declaredMethods_eq_nil fun s hs => ?_
    have hhead : s.toList.head? = some '/' ∨ s.toList.head? = some ' ' := by
      simp only [List.mem_append, List.mem_cons, List.not_mem_nil, or_false, List.mem_map] at hs
      rcases hs with ((rfl | rfl | rfl) | ⟨p, -, rfl⟩) | rfl | rfl <;> simp
    rcases hhead with h | h <;> exact declaredName?_of_head? h (by decide)
  have hbody : declaredMethods (lines ["return $this->" ++ a.call ++ ";"]) = [] := by
    refine declaredMethods_eq_nil fun s hs => ?_
    obtain rfl := List.mem_singleton.mp hs
    exact declaredName?_of_head? (c := 'r') (by simp) (by decide)
  have hname := declaredName?_method h (a.parameters ++ ")\x7b")
  have hblank : declaredMethods blank = [] := by decide
  rw [← String.append_assoc] at hname
  rw [Method.code, declaredMethods_append, declaredMethods_append, declaredMethods_block, hdoc, hbody,
    hblank, hname]
  rfl

theorem declaredMethods_addFieldCode (f : Field) : declaredMethods (addFieldCode f) = [] := by
  have hadd : declaredMethods (lines ["$descriptor->addField($f);", ""]) = [] := by decide +kernel
  rw [addFieldCode, declaredMethods_append, declaredMethods_metadata, hadd, List.append_nil]

/-- A class declares the method for the descriptor, whatever the fields are, and the accessors. -/
theorem declaredMethods_messageCode (ns : Namespace) (name : String) {fields : List Field}
    (h : ∀ f ∈ fields, ∀ a ∈ f.accessors (ns.child name), '(' ∉ a.name.toList) :
    declaredMethods (messageCode ns name fields) =
      "descriptor" :: fields.flatMap fun f => (f.accessors (ns.child name)).map (·.name) := by
  have hcode : messageCode ns name fields =
      block (namespaceLine ns) (blank ++
        block ("class " ++ name ++ " extends \\DrSlump\\Protobuf\\Message \x7b")
          (classHeader ++ descriptorOpening ++
            ⟨2, descriptorStatement (ns.child name)⟩ :: members (ns.child name) fields)) := by
    rw [messageCode, classBody_eq]
    rfl
  have hnamespace : declaredName? (namespaceLine ns) = none := by
    refine declaredName?_of_head? (c := 'n') ?_ (by decide)
    rw [namespaceLine]
    split <;> simp
  have hclass : declaredName? ("class " ++ name ++ " extends \\DrSlump\\Protobuf\\Message \x7b") = none :=
    declaredName?_of_head? (c := 'c') (by simp) (by decide)
  have hopening : declaredMethods (classHeader ++ descriptorOpening) = ["descriptor"] := by
    decide +kernel
  have hstatement : declaredName? (descriptorStatement (ns.child name)) = none := by
    unfold descriptorStatement
    exact declaredName?_of_head? (c := '$') (by simp) (by decide)
  have hclosing : declaredMethods descriptorClosing = [] := by decide +kernel
  have hblank : declaredMethods blank = [] := by decide
  have hadded : declaredMethods (fields.flatMap addFieldCode) = [] := by
    rw [declaredMethods_flatMap]
    exact List.flatMap_eq_nil_iff.mpr fun f _ => declaredMethods_addFieldCode f
  have hproperties : declaredMethods (fields.flatMap Field.property) = [] := by
    rw [declaredMethods_flatMap]
    exact List.flatMap_eq_nil_iff.mpr fun f _ => declaredMethods_property f
  have haccessors : declaredMethods
      (fields.flatMap fun f => (f.accessors (ns.child name)).flatMap Method.code) =
        fields.flatMap fun f => (f.accessors (ns.child name)).map (·.name) := by
    rw [declaredMethods_flatMap]
    refine List.flatMap_congr fun f hf => ?_
    rw [declaredMethods_flatMap, List.map_eq_flatMap]
    exact List.flatMap_congr fun a ha => declaredMethods_method (h f hf a ha)
  rw [hcode, declaredMethods_block, hnamespace, declaredMethods_append, hblank, declaredMethods_block,
    hclass, declaredMethods_append, hopening, declaredMethods_cons, hstatement, members,
    declaredMethods_cons]
  simp only [declaredMethods_append, declaredMethods_deepen, hadded, hclosing, hblank, hproperties,
    haccessors]
  rfl

end Php

/-- What an accessor does. -/
inductive Verb where
  | has
  | clear
  | get
  | set
  | add
  deriving Repr, DecidableEq

namespace Verb

def spelling : Verb → String
  | has => "has"
  | clear => "clear"
  | get => "get"
  | set => "set"
  | add => "add"

/-- The first characters of the verbs tell them apart. -/
theorem spelling_append_injective :
    Function.Injective fun p : Verb × String => p.1.spelling ++ p.2 := by
  rintro ⟨v, a⟩ ⟨w, b⟩ h
  have h : v.spelling.toList ++ a.toList = w.spelling.toList ++ b.toList := by
    simpa using congrArg String.toList h
  have hverb : v = w := by
    have hhead := congrArg List.head? h
    cases v <;> cases w <;> first | rfl | simp [spelling] at hhead
  subst hverb
  rw [String.toList_inj.mp (List.append_cancel_left h)]

theorem spelling_append_ne_descriptor (v : Verb) (rest : String) : v.spelling ++ rest ≠ "descriptor" := by
  intro h
  have hhead := congrArg (fun s : String => s.toList.head?) h
  cases v <;> simp [spelling] at hhead

end Verb

open Php Definition

theorem lowerCase_pascalCase (name : String) : lowerCase (pascalCase name) = foldedName name := by
  rw [lowerCase, lowerChars, toList_pascalCase, map_toLower_pascalChars, foldedName]

/-- The names of the accessors of a field. -/
def Descriptor.Field.accessorNames (f : Descriptor.Field) : List String :=
  let suffix := pascalCase f.name
  if f.label = .repeated then
    ["has" ++ suffix, "clear" ++ suffix, "get" ++ suffix, "set" ++ suffix, "get" ++ suffix ++ "List",
      "add" ++ suffix]
  else ["has" ++ suffix, "clear" ++ suffix, "get" ++ suffix, "set" ++ suffix]

/-- The names of the accessors of a field without regard to case: what each of them does, and the rest. -/
def Descriptor.Field.accessorKeys (f : Descriptor.Field) : List (Verb × String) :=
  let key := foldedName f.name
  if f.label = .repeated then
    [(.has, key), (.clear, key), (.get, key), (.set, key), (.get, key ++ "list"), (.add, key)]
  else [(.has, key), (.clear, key), (.get, key), (.set, key)]

theorem map_name_accessors (t : PackageTable) (f : Descriptor.Field) (owner : Namespace) :
    ((t.field f).accessors owner).map (·.name) = f.accessorNames := by
  rw [Php.Field.accessors, Field.accessorNames]
  by_cases h : f.label = .repeated
  · have hrepeated : (t.field f).isRepeated = true := decide_eq_true h
    rw [if_pos hrepeated, if_pos h]
    rfl
  · have hsingular : ¬(t.field f).isRepeated = true := fun e => h (of_decide_eq_true e)
    rw [if_neg hsingular, if_neg h]
    rfl

namespace Descriptor.Field

variable {f g : Descriptor.Field}

/-- No accessor has a parenthesis in its name. -/
theorem not_mem_of_mem_accessorNames (h : IsWord f.name) {name : String} (hname : name ∈ f.accessorNames) :
    '(' ∉ name.toList := by
  have hpascal : '(' ∉ pascalChars f.name.toList := by
    intro hc
    rw [← toList_pascalCase] at hc
    cases isWordChar_of_mem_pascalCase h hc
  rw [accessorNames] at hname
  split at hname <;> simp only [List.mem_cons, List.not_mem_nil, or_false] at hname
  · rcases hname with rfl | rfl | rfl | rfl | rfl | rfl <;> simp [hpascal]
  · rcases hname with rfl | rfl | rfl | rfl <;> simp [hpascal]

/-- Without regard to case and underscores, a name is a verb and what follows it. -/
theorem map_lowerCase_accessorNames (f : Descriptor.Field) :
    f.accessorNames.map lowerCase = f.accessorKeys.map fun p => p.1.spelling ++ p.2 := by
  have hverb : ∀ verb, lowerCase verb = verb →
      lowerCase (verb ++ pascalCase f.name) = verb ++ foldedName f.name := by
    intro verb h
    rw [lowerCase_append, lowerCase_pascalCase, h]
  have hhas := hverb "has" (by decide)
  have hclear := hverb "clear" (by decide)
  have hget := hverb "get" (by decide)
  have hset := hverb "set" (by decide)
  have hadd := hverb "add" (by decide)
  have hlist : lowerCase ("get" ++ pascalCase f.name ++ "List") =
      "get" ++ (foldedName f.name ++ "list") := by
    rw [lowerCase_append, hget, String.append_assoc]
    rfl
  rw [accessorNames, accessorKeys]
  split
  · simp only [List.map_cons, List.map_nil, hhas, hclear, hget, hset, hlist, hadd]
    rfl
  · simp only [List.map_cons, List.map_nil, hhas, hclear, hget, hset]
    rfl

theorem mem_accessorKeys {p : Verb × String} (h : p ∈ f.accessorKeys) :
    p.2 = foldedName f.name ∨
      f.label = .repeated ∧ p.1 = .get ∧ p.2 = foldedName f.name ++ "list" := by
  rw [accessorKeys] at h
  split at h <;> simp only [List.mem_cons, List.not_mem_nil, or_false] at h
  · rename_i hrepeated
    rcases h with rfl | rfl | rfl | rfl | rfl | rfl
    all_goals simp [hrepeated]
  · rcases h with rfl | rfl | rfl | rfl
    all_goals simp

theorem get_mem_accessorKeys (f : Descriptor.Field) : (.get, foldedName f.name) ∈ f.accessorKeys := by
  rw [accessorKeys]
  split <;> simp

theorem getList_mem_accessorKeys (h : f.label = .repeated) :
    (.get, foldedName f.name ++ "list") ∈ f.accessorKeys := by
  rw [accessorKeys, if_pos h]
  simp

theorem ne_append_list (key : String) : key ≠ key ++ "list" := by
  intro h
  have hlength := congrArg String.length h
  rw [String.length_append] at hlength
  exact absurd hlength (by simp)

theorem nodup_accessorKeys (f : Descriptor.Field) : f.accessorKeys.Nodup := by
  have hne := ne_append_list (foldedName f.name)
  rw [accessorKeys]
  split <;> simp [hne]

/-- The accessors of two fields are apart unless one field is named like the list of the other. -/
theorem disjoint_accessorKeys_iff (h : foldedName f.name ≠ foldedName g.name) :
    f.accessorKeys.Disjoint g.accessorKeys ↔
      (f.label = .repeated → foldedName g.name ≠ foldedName f.name ++ "list") ∧
        (g.label = .repeated → foldedName f.name ≠ foldedName g.name ++ "list") := by
  constructor
  · intro hdisjoint
    refine ⟨fun hf hlist => ?_, fun hg hlist => ?_⟩
    · exact hdisjoint (getList_mem_accessorKeys hf) (hlist ▸ get_mem_accessorKeys g)
    · exact hdisjoint (hlist ▸ get_mem_accessorKeys f) (getList_mem_accessorKeys hg)
  · rintro ⟨hf, hg⟩ p hpf hpg
    -- The rest of the name is that of the field, or that of its list.
    rcases mem_accessorKeys hpf with hkey | ⟨hrepeated, -, hkey⟩ <;>
      rcases mem_accessorKeys hpg with hkey' | ⟨hrepeated', -, hkey'⟩ <;> rw [hkey] at hkey'
    · exact h hkey'
    · exact hg hrepeated' hkey'
    · exact hf hrepeated hkey'.symm
    · exact h ((String.append_left_inj "list").mp hkey')

end Descriptor.Field

namespace SourceUnit

/-- The accessors of fields with different names are apart unless one field is named like the list of
another. -/
theorem nodup_accessorKeys_iff {fields : List Descriptor.Field}
    (h : (fields.map fun f => foldedName f.name).Nodup) :
    (fields.flatMap Field.accessorKeys).Nodup ↔
      ∀ f ∈ fields, f.label = .repeated →
        ∀ g ∈ fields, foldedName g.name ≠ foldedName f.name ++ "list" := by
  have hapart : fields.Pairwise fun f g => foldedName f.name ≠ foldedName g.name :=
    List.pairwise_map.mp h
  rw [List.nodup_flatMap]
  constructor
  · rintro ⟨-, hdisjoint⟩ f hf hrepeated g hg hlist
    have hne : foldedName f.name ≠ foldedName g.name := hlist ▸ Field.ne_append_list _
    have hsymm : Std.Symm (Function.onFun List.Disjoint Field.accessorKeys) := ⟨fun _ _ h => h.symm⟩
    have hpair := hdisjoint.forall hf hg fun e => hne (e ▸ rfl)
    exact ((Field.disjoint_accessorKeys_iff hne).mp hpair).1 hrepeated hlist
  · intro hlists
    refine ⟨fun f _ => f.nodup_accessorKeys, hapart.imp_of_mem fun {f g} hf hg hne => ?_⟩
    exact (Field.disjoint_accessorKeys_iff hne).mpr
      ⟨fun hrepeated => hlists f hf hrepeated g hg, fun hrepeated => hlists g hg hrepeated f hf⟩

variable {t : PackageTable} {m : Message} {u : SourceUnit}

/-- The class of a message declares the method for the descriptor and the accessors of its fields. -/
theorem declaredMethods_eq (h : u.IsOf t m) (hnames : ∀ f ∈ m.fields, isIdentifier f.name = true) :
    declaredMethods u.code = "descriptor" :: m.fields.flatMap (·.accessorNames) := by
  have hparenthesis : ∀ f ∈ m.fields.map t.field, ∀ a ∈ f.accessors (u.scope.child m.name),
      '(' ∉ a.name.toList := by
    intro f hf a ha
    obtain ⟨d, hd, rfl⟩ := List.mem_map.mp hf
    have hname := List.mem_map_of_mem (f := fun a : Php.Method => a.name) ha
    rw [map_name_accessors] at hname
    exact Field.not_mem_of_mem_accessorNames (isWord_of_isIdentifier (hnames d hd)) hname
  rw [h.code_eq, declaredMethods_messageCode _ _ hparenthesis, List.flatMap_map]
  exact congrArg _ (List.flatMap_congr fun f _ => map_name_accessors t f _)

/-- Where names and values cannot be taken for code, the methods that are read from the source of a class
are those that its lines declare. -/
theorem map_name_methods (h : u.IsTame t m) :
    (methods u.source).map (·.name) = declaredMethods u.code := by
  obtain ⟨⟨body, -, hmethods⟩, -⟩ := h.methods_eq
  have hnames : ∀ f, (t.accessors f).map Accessor.name = f.accessorNames := by
    intro f
    rw [← map_ofMethod_accessors t f .root, List.map_map]
    exact map_name_accessors t f .root
  rw [hmethods, declaredMethods_eq h.printed h.message.fields, List.map_cons, List.map_map]
  refine congrArg _ ((List.map_flatMap ..).trans (List.flatMap_congr fun f _ => ?_))
  exact hnames f

/-- The names of the methods of a class, compared as PHP compares them. -/
theorem nodup_lowerCase_iff (h : u.IsOf t m) (hnames : ∀ f ∈ m.fields, isIdentifier f.name = true) :
    ((declaredMethods u.code).map lowerCase).Nodup ↔ (m.fields.flatMap Field.accessorKeys).Nodup := by
  have hdescriptor : lowerCase "descriptor" = "descriptor" := by decide
  have hkeys : (m.fields.flatMap (·.accessorNames)).map lowerCase =
      (m.fields.flatMap Field.accessorKeys).map fun p => p.1.spelling ++ p.2 := by
    rw [List.map_flatMap, List.map_flatMap]
    exact List.flatMap_congr fun f _ => f.map_lowerCase_accessorNames
  have hother : "descriptor" ∉
      (m.fields.flatMap Field.accessorKeys).map fun p => p.1.spelling ++ p.2 := by
    intro hmem
    obtain ⟨p, -, hp⟩ := List.mem_map.mp hmem
    exact Verb.spelling_append_ne_descriptor p.1 p.2 hp
  rw [declaredMethods_eq h hnames, List.map_cons, hdescriptor, hkeys, List.nodup_cons,
    List.nodup_map_iff Verb.spelling_append_injective]
  exact and_iff_right hother

/-- A repeated field and a field that is named like its list: both declare a method that gives all values
of the first one. -/
theorem declaredMethods_list_twice :
    let m : Message :=
      { name := "M"
        fields := [{ name := "foo", number := 1, type := .int32, label := .repeated },
          { name := "foo_list", number := 2, type := .int32 }] }
    let table := PackageTable.ofList []
    ∃ u : SourceUnit, u.IsOf table m ∧ (∀ f ∈ m.fields, isIdentifier f.name = true) ∧
      (m.fields.map fun f => foldedName f.name).Nodup ∧
      (declaredMethods u.code).count "getFooList" = 2 ∧
      ¬((declaredMethods u.code).map lowerCase).Nodup := by
  intro m table
  have hprinted := isOf_ofDeclaration table { messages := [m] } {} (by decide) 0 [] m rfl
  have hnames : ∀ f ∈ m.fields, isIdentifier f.name = true := by decide
  have hdeclared := declaredMethods_eq hprinted hnames
  refine ⟨_, hprinted, hnames, by decide, ?_, ?_⟩
  · rw [hdeclared]
    decide
  · rw [hdeclared]
    decide

/-- The methods of a class are the one for the descriptor and the accessors of the fields.  If the names of
the fields are identifiers and stay apart without regard to case and underscores, then no two methods have
one name, unless a field is named like the list of a repeated field; then two methods do.  Where names
and values cannot be taken for code, these methods are the ones that are read from the source. -/
theorem nodup_declaredMethods_iff (h : u.IsOf t m)
    (hnames : ∀ f ∈ m.fields, isIdentifier f.name = true)
    (hfolded : (m.fields.map fun f => foldedName f.name).Nodup) :
    declaredMethods u.code = "descriptor" :: m.fields.flatMap (·.accessorNames) ∧
      (((declaredMethods u.code).map lowerCase).Nodup ↔
        ∀ f ∈ m.fields, f.label = .repeated →
          ∀ g ∈ m.fields, foldedName g.name ≠ foldedName f.name ++ "list") ∧
      (u.IsTame t m → (methods u.source).map (·.name) = declaredMethods u.code) :=
  ⟨declaredMethods_eq h hnames,
    (nodup_lowerCase_iff h hnames).trans (nodup_accessorKeys_iff hfolded), map_name_methods⟩

/-- A field that is named like a list beside a repeated field with another name. -/
theorem nodup_declaredMethods_iff_other_list :
    let m : Message :=
      { name := "M"
        fields := [{ name := "line_items", number := 1, type := .string, label := .repeated },
          { name := "Items_list", number := 2, type := .int32 },
          { name := "list", number := 3, type := .bool, label := .repeated }] }
    let table := PackageTable.ofList []
    ∃ u : SourceUnit, u.IsOf table m ∧
      (m.fields.map fun f => foldedName f.name) = ["lineitems", "itemslist", "list"] ∧
      declaredMethods u.code =
        ["descriptor", "hasLineItems", "clearLineItems", "getLineItems", "setLineItems",
          "getLineItemsList", "addLineItems", "hasItemsList", "clearItemsList", "getItemsList",
          "setItemsList", "hasList", "clearList", "getList", "setList", "getListList", "addList"] ∧
      ((declaredMethods u.code).map lowerCase).Nodup ∧
      (methods u.source).map (·.name) = declaredMethods u.code := by
  intro m table
  have hprinted := isOf_ofDeclaration table { messages := [m] } {} (by decide) 0 [] m rfl
  have htame : SourceUnit.IsTame table m _ :=
    { printed := hprinted
      table := by decide
      scope := by decide
      message := { name := by decide, fields := by decide, types := by simp [m] }
      packages := by decide
      defaults := by simp [m] }
  obtain ⟨hdeclared, hnodup, hsource⟩ := nodup_declaredMethods_iff hprinted (by decide) (by decide)
  refine ⟨_, hprinted, by decide, hdeclared.trans (by decide), hnodup.mpr ?_, hsource htame⟩
  decide

end SourceUnit

end ProtoPhp
