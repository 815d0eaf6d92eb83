/-
The accessors of a generated class.

The methods of the class of a message are the one for the descriptor and then, field
after field, the accessors.  Each accessor passes the number of its own field on to
one call on the object, and no other such call stands anywhere in the class, neither
in the descriptor nor in what default values could put there.

* `Accessor` — a method that makes one call and returns what it gives;
* `PackageTable.accessors` — the accessors that a field is to have;
* `SourceUnit.IsTame.methods_eq` — what the class of a message shows;
* `methods_of_source` — the methods and the calls of the source of a message.
-/
import ProtoPhp.Proofs.Php.MethodCode
import ProtoPhp.Proofs.Text.PascalCase

namespace ProtoPhp

open Descriptor Php Text

/-- A public method that makes one call on the object at hand and returns what it gives. -/
structure Accessor where
  name : String
  parameters : String
  call : String
  deriving Repr, DecidableEq

namespace Accessor

/-- The method as it is to be read. -/
def reading (a : Accessor) : MethodReading where
  modifiers := ["public"]
  name := a.name
  parameters := a.parameters
  body := [⟨"return $this->" ++ a.call, some ';'⟩]

/-- The method that is printed. -/
def ofMethod (m : Php.Method) : Accessor := ⟨m.name, m.parameters, m.call⟩

end Accessor

/-- The accessors that a field is to have: by number, with the class of a message in front of the
value. -/
def PackageTable.accessors (t : PackageTable) (f : Descriptor.Field) : List Accessor :=
  let suffix := pascalCase f.name
  let number := toString f.number
  let value :=
    if f.type = .message then
      "\\" ++ "\\".intercalate (t.target (f.typeName.getD "")).segments ++ " $value"
    else "$value"
  if f.label = .repeated then
    [⟨"has" ++ suffix, "", "_has(" ++ number ++ ")"⟩,
      ⟨"clear" ++ suffix, "", "_clear(" ++ number ++ ")"⟩,
      ⟨"get" ++ suffix, "$idx = NULL", "_get(" ++ number ++ ", $idx)"⟩,
      ⟨"set" ++ suffix, value ++ ", $idx = NULL", "_set(" ++ number ++ ", $value, $idx)"⟩,
      ⟨"get" ++ suffix ++ "List", "", "_get(" ++ number ++ ")"⟩,
      ⟨"add" ++ suffix, value, "_add(" ++ number ++ ", $value)"⟩]
  else
    [⟨"has" ++ suffix, "", "_has(" ++ number ++ ")"⟩,
      ⟨"clear" ++ suffix, "", "_clear(" ++ number ++ ")"⟩,
      ⟨"get" ++ suffix, "", "_get(" ++ number ++ ")"⟩,
      ⟨"set" ++ suffix, value, "_set(" ++ number ++ ", $value)"⟩]

/-- The printed accessors of a field are those that it is to have. -/
theorem map_ofMethod_accessors (t : PackageTable) (f : Descriptor.Field) (owner : Namespace) :
    ((t.field f).accessors owner).map Accessor.ofMethod = t.accessors f := by
  have hvalue : (t.valueType f).parameter =
      if f.type = .message then
        "\\" ++ "\\".intercalate (t.target (f.typeName.getD "")).segments ++ " $value"
      else "$value" := by
    rw [PackageTable.valueType]
    cases f.type <;> rfl
  rw [PackageTable.accessors, ← hvalue, Field.accessors]
  by_cases h : f.label = .repeated
  · have hrepeated : (t.field f).isRepeated = true := decide_eq_true h
    rw [if_pos hrepeated, if_pos h]
    rfl
  · have hsingular : ¬(t.field f).isRepeated = true := fun e => h (of_decide_eq_true e)
    rw [if_neg hsingular, if_neg h]
    rfl

namespace Php.Field

variable {f : Field} {owner : Namespace}

/-- Nothing that a field puts into the code of a class can be taken for code. -/
structure IsTame (f : Field) : Prop where
  name : IsWord f.name
  schema : IsInert f.schemaType
  targets : ∀ target, f.type.target? = some target → target.HasWords ∧ target ≠ .root
  default : ∀ value, f.default? = some value → LooksQuiet value

theorem IsTame.isInert_docType (h : f.IsTame) : IsInert f.type.docType :=
  ValueType.isInert_docType fun target htarget => (h.targets target htarget).1

theorem IsTame.isQuietText_parameter (h : f.IsTame) : IsQuietText f.type.parameter := by
  have hvalue : IsQuietText "$value" := by decide
  have htargets := h.targets
  cases htype : f.type with
  | message target =>
    rw [htype] at htargets
    have habsolute := (htargets target rfl).1.isInert_absolute
    exact (isQuietText_of_isInert habsolute).append (by decide)
  | _ => exact hvalue

/-- A method named after a field that passes on the number of the field. -/
theorem IsTame.isRegular (h : f.IsTame) (front back verb ending callee arguments : String)
    {m : Method} (hsummary : m.doc.summary = front ++ f.name ++ back)
    (hname : m.name = verb ++ pascalCase f.name ++ ending)
    (hcall : m.call = callee ++ f.tag ++ arguments)
    (htexts : ('/' ∉ front.toList ∧ '/' ∉ back.toList) ∧ (IsInert verb ∧ IsInert ending) ∧
      IsQuietText callee ∧ IsQuietText arguments ∧ arguments.toList.getLast? = some ')')
    (hdocumented : ∀ s ∈ m.doc.result :: m.doc.parameters, '/' ∉ s.toList)
    (hparameters : IsQuietText m.parameters) : m.IsRegular := by
  obtain ⟨⟨hfront, hback⟩, ⟨hverb, hending⟩, hcallee, harguments, hlast⟩ := htexts
  have hfield : '/' ∉ f.name.toList := h.name.not_mem rfl
  have hpascal : IsInert (pascalCase f.name) := fun c hc =>
    isInertChar_of_isWordChar (isWordChar_of_mem_pascalCase h.name hc)
  have htag : IsQuietText f.tag :=
    isQuietText_of_isInert (isInert_toString_int f.descriptor.number)
  exact
    { summary := by simp [hsummary, hfront, hfield, hback]
      documented := fun p hp => hdocumented p (List.mem_cons_of_mem _ hp)
      result := hdocumented _ List.mem_cons_self
      name := hname ▸ (hverb.append hpascal).append hending
      parameters := hparameters
      call := hcall ▸ (hcallee.append htag).append harguments
      closed := by
        rw [hcall, String.toList_append, List.getLast?_append, hlast]
        rfl }

theorem IsTame.isRegular_of_mem (h : f.IsTame) (howner : owner.HasWords) {m : Method}
    (hm : m ∈ f.accessors owner) : m.IsRegular := by
  have hdoc : '/' ∉ f.type.docType.toList := h.isInert_docType.not_mem rfl
  have hself : '/' ∉ (absolute owner).toList := howner.isInert_absolute.not_mem rfl
  have hone : ∀ s : String, '/' ∉ s.toList → ∀ x ∈ [s], '/' ∉ x.toList :=
    fun s hs => List.forall_mem_singleton.mpr hs
  have hlist : '/' ∉ (f.type.docType ++ "[]").toList := by simpa using hdoc
  have hread : ∀ x ∈ [f.type.docType, "int $idx"], '/' ∉ x.toList :=
    List.forall_mem_cons.mpr ⟨hdoc, hone _ (by decide)⟩
  have hchanged : ∀ x ∈ [absolute owner, f.type.docType ++ " $value"], '/' ∉ x.toList :=
    List.forall_mem_cons.mpr ⟨hself, hone _ (by simpa using hdoc)⟩
  have hchangedAt : ∀ x ∈ [absolute owner, f.type.docType ++ " $value", "int $idx"], '/' ∉ x.toList :=
    List.forall_mem_append.mpr ⟨hchanged, hone _ (by decide)⟩
  have hvalue := h.isQuietText_parameter
  have hvalueAt : IsQuietText (f.type.parameter ++ ", $idx = NULL") := hvalue.append (by decide)
  -- Whether the field repeats or not, the method is one of eight.
  have hmem : m ∈ [f.hasMethod, f.clearMethod owner, f.getMethod, f.getAtMethod, f.getListMethod,
      f.setMethod owner, f.setAtMethod owner, f.addMethod owner] := by
    rw [accessors] at hm
    split at hm <;> simp only [List.mem_cons, List.not_mem_nil, or_false] at hm ⊢ <;> tauto
  simp only [List.mem_cons, List.not_mem_nil, or_false] at hmem
  rcases hmem with rfl | rfl | rfl | rfl | rfl | rfl | rfl | rfl
  · exact h.isRegular "Check if <" "> has a value" "has" "" "_has(" ")" rfl String.append_empty.symm rfl
      (by decide) (hone "boolean" (by decide)) nofun
  · exact h.isRegular "Clear <" "> value" "clear" "" "_clear(" ")" rfl String.append_empty.symm rfl
      (by decide) (hone _ hself) nofun
  · exact h.isRegular "Get <" "> value" "get" "" "_get(" ")" rfl String.append_empty.symm rfl
      (by decide) (hone _ hdoc) nofun
  · exact h.isRegular "Get <" "> value" "get" "" "_get(" ", $idx)" rfl String.append_empty.symm rfl
      (by decide) hread (by decide : IsQuietText "$idx = NULL")
  · exact h.isRegular "Get all elements of <" ">" "get" "List" "_get(" ")" rfl rfl rfl
      (by decide) (hone _ hlist) nofun
  · exact h.isRegular "Set <" "> value" "set" "" "_set(" ", $value)" rfl String.append_empty.symm rfl
      (by decide) hchanged hvalue
  · exact h.isRegular "Set <" "> value" "set" "" "_set(" ", $value, $idx)" rfl
      String.append_empty.symm rfl (by decide) hchangedAt hvalueAt
  · exact h.isRegular "Add a new element to <" ">" "add" "" "_add(" ", $value)" rfl
      String.append_empty.symm rfl (by decide) hchanged hvalue

theorem IsTame.showsMethods_accessors (h : f.IsTame) (howner : owner.HasWords) :
    ShowsMethods ((f.accessors owner).flatMap Method.code) ((f.accessors owner).map Method.reading)
      ((f.accessors owner).map Method.call) := by
  rw [List.map_eq_flatMap, List.map_eq_flatMap]
  exact showsMethods_flatMap fun m hm => Method.showsMethods_code (h.isRegular_of_mem howner hm)

end Php.Field

/-- The class of a message shows the method for the descriptor and the accessors of its fields. -/
theorem Php.showsMethods_messageCode {ns : Namespace} (hns : ns.HasWords) {name : String}
    (hname : IsWord name) {fields : List Php.Field} (h : ∀ f ∈ fields, f.IsTame) :
    ∃ body, (∀ c ∈ body, c.calls = []) ∧
      ShowsMethods (messageCode ns name fields)
        (descriptorReading body ::
          fields.flatMap fun f => (f.accessors (ns.child name)).map Method.reading)
        (fields.flatMap fun f => (f.accessors (ns.child name)).map Method.call) := by
  have howner := hns.child hname
  have hne : ns.child name ≠ .root := fun e =>
    List.append_ne_nil_of_right_ne_nil _ (List.cons_ne_nil _ _) (congrArg Namespace.segments e)
  have hmetadata : ∀ f ∈ fields, ShowsQuiet (f.metadata f.name) := fun f hf =>
    showsQuiet_metadata (h f hf).name.isInert (h f hf).schema (h f hf).targets (h f hf).default
  have hproperty : ∀ f ∈ fields, ShowsQuiet f.property := fun f hf =>
    showsQuiet_property (h f hf).name.isInert (h f hf).isInert_docType (h f hf).default
  obtain ⟨body, hbody, hdescriptor⟩ := showsMethods_descriptorCode howner hne hmetadata
  have hproperties := (showsQuiet_flatMap hproperty).showsMethods
  have haccessors := showsMethods_flatMap fun f hf => (h f hf).showsMethods_accessors howner
  have hblank := showsQuiet_blank.showsMethods
  have hclass := ((((showsQuiet_classHeader.showsMethods.append hdescriptor).append hblank).append
    hproperties).append hblank).append haccessors
  refine ⟨body, hbody, ?_⟩
  have hstart : "class " = "class" ++ " " := by decide
  have hend : " extends \\DrSlump\\Protobuf\\Message \x7b" =
      " extends \\DrSlump\\Protobuf\\Message " ++ "\x7b" := by decide
  have hopening : "class " ++ name ++ " extends \\DrSlump\\Protobuf\\Message \x7b" =
      "class" ++ " " ++ name ++ " extends \\DrSlump\\Protobuf\\Message " ++ "\x7b" := by
    rw [hstart, hend, ← String.append_assoc]
  obtain ⟨c, hhead, hc⟩ := hname.head?
  have hblock := hclass.block_of_word hopening (by decide) (by decide) hname.isInert hhead hc
    (isQuietText_of_all String.toList_ofList (by decide))
  exact hblock.namespaceBlock hns

/-- The unit of a message keeps values apart from code: all names are identifiers, no type name is a
package, and no default value but a text has a character that ends a clause, makes a call, or starts a
literal or a comment.  Letters, digits, underscores, dots and signs are no such characters. -/
structure SourceUnit.IsTame (t : PackageTable) (m : Message) (u : SourceUnit) : Prop
    extends u.IsNamed t m where
  packages : ∀ f ∈ m.fields, ∀ r ∈ f.typeName, t.get? (Reference.name r) = none
  defaults : ∀ f ∈ m.fields, f.holdsText = false → ∀ d ∈ f.defaultValue, IsQuietText d

/-- What a field puts into the code of a class is no code if its name is an identifier, its type name is
no package, and its default value is a text or quiet. -/
theorem PackageTable.isTame_field {t : PackageTable} (ht : t.HasIdentifiers) {f : Descriptor.Field}
    (hname : isIdentifier f.name = true)
    (htypes : ∀ r ∈ f.typeName, IsTypeName r ∧ t.get? (Reference.name r) = none)
    (hqualified : ∀ r ∈ f.reference?, Reference.isQualified r = true)
    (hdefault : f.holdsText = false → ∀ d ∈ f.defaultValue, IsQuietText d) : (t.field f).IsTame := by
  have htargets : ∀ target, (t.valueType f).target? = some target →
      target.HasWords ∧ target ≠ .root := by
    intro target htarget
    rw [PackageTable.target?_valueType, Option.map_eq_some_iff] at htarget
    obtain ⟨r, hr, rfl⟩ := htarget
    obtain ⟨htype, hpackage⟩ := htypes r (Field.typeName_of_reference? hr (hqualified r hr))
    exact ⟨PackageTable.hasWords_target ht htype, PackageTable.target_ne_root htype hpackage⟩
  refine ⟨isWord_of_isIdentifier hname, PackageTable.isInert_schemaType fun r hr => (htypes r hr).1,
    htargets, fun value hvalue => ?_⟩
  obtain ⟨d, hd, rfl⟩ := Option.map_eq_some_iff.mp hvalue
  show LooksQuiet (literal (t.valueType f) d)
  by_cases htext : f.holdsText = true
  · rw [PackageTable.literal_of_holdsText htext]
    exact looksQuiet_quote d
  · rw [Bool.not_eq_true] at htext
    refine looksQuiet_plain fun c hc => ?_
    rcases PackageTable.mem_literal htext (fun target h => (htargets target h).1) hc with hc | hc | rfl
    · exact hdefault htext d hd c hc
    · exact isQuietChar_of_isInertChar hc
    · decide

theorem SourceUnit.IsTame.field {t : PackageTable} {m : Message} {u : SourceUnit} (h : u.IsTame t m)
    {f : Descriptor.Field} (hf : f ∈ m.fields) : (t.field f).IsTame :=
  PackageTable.isTame_field h.table (h.message.fields f hf)
    (fun r hr => ⟨h.message.types f hf r hr, h.packages f hf r hr⟩)
    (fun _ hr => h.printed.isQualified hf hr) (h.defaults f hf)

/-- The methods that the class of a message shows, and all calls in it. -/
theorem SourceUnit.IsTame.methods_eq {t : PackageTable} {m : Message} {u : SourceUnit}
    (h : u.IsTame t m) :
    (∃ body, (∀ c ∈ body, c.calls = []) ∧
      methods u.source =
        descriptorReading body :: (m.fields.flatMap t.accessors).map Accessor.reading) ∧
      (clauses u.source).flatMap Clause.calls = (m.fields.flatMap t.accessors).map Accessor.call := by
  have htame : ∀ f ∈ m.fields.map t.field, f.IsTame := by
    intro f hf
    obtain ⟨d, hd, rfl⟩ := List.mem_map.mp hf
    exact h.field hd
  obtain ⟨body, hbody, hshows⟩ := showsMethods_messageCode h.hasWords_scope
    (isWord_of_isIdentifier h.message.name) htame
  obtain ⟨hmethods, hcalls⟩ := hshows.of_render
  rw [← h.printed.code_eq] at hmethods hcalls
  -- The printed accessors of each field are those that it is to have.
  have haccessors : ∀ {α : Type} (g : Accessor → α),
      ((m.fields.map t.field).flatMap fun f => (f.accessors (u.scope.child m.name)).map fun a =>
        g (.ofMethod a)) = (m.fields.flatMap t.accessors).map g := by
    intro α g
    rw [List.flatMap_map, List.map_flatMap]
    refine List.flatMap_congr fun f _ => ?_
    rw [← map_ofMethod_accessors t f (u.scope.child m.name), List.map_map]
    rfl
  refine ⟨⟨body, hbody, ?_⟩, ?_⟩
  · rw [SourceUnit.source, hmethods, ← haccessors]
    rfl
  · rw [SourceUnit.source, hcalls, ← haccessors]
    rfl

/-- The methods of the class of a message are the one for the descriptor, which makes no call, and the
accessors of the fields in their order; no other call on the object at hand occurs in the source.  The
classes of message values are those that the references are resolved to. -/
theorem methods_of_source {t : PackageTable} {m : Message} {u : SourceUnit} (h : u.IsTame t m) :
    (∃ body, (∀ c ∈ body, c.calls = []) ∧
      methods u.source =
        descriptorReading body :: (m.fields.flatMap t.accessors).map Accessor.reading) ∧
      (clauses u.source).flatMap Clause.calls = (m.fields.flatMap t.accessors).map Accessor.call ∧
      ∀ f ∈ m.fields, ∀ r ∈ f.reference?, ∃ warnings, t.resolve r = .ok ⟨t.target r, warnings⟩ :=
  ⟨h.methods_eq.1, h.methods_eq.2, h.resolve_reference⟩

/-- A text that looks like another accessor, a repeated message, and an enum with a default value. -/
theorem methods_of_source_imitating_code :
    let text :=
      "\";\n    \x7d\n\n    public function getText()\x7b\n      return $this->_get(9);\n    \x7d\n/* '"
    let m : Message :=
      { name := "Order"
        fields := [{ name := "text", number := 1, type := .string, defaultValue := some text },
          { name := "line_items", number := 7, label := .repeated, type := .message
            typeName := some ".shop.Item" },
          { name := "kind", number := 3, type := .enum, typeName := some ".shop.Kind"
            defaultValue := some "OPEN" }] }
    let table := PackageTable.ofList [("shop", .parse "App.Shop")]
    ∃ u : SourceUnit, u.IsTame table m ∧
      (methods u.source).map (fun a => (a.name, a.parameters)) =
        [("descriptor", "\\DrSlump\\Protobuf\\Descriptor $descriptor = NULL"),
          ("hasText", ""), ("clearText", ""), ("getText", ""), ("setText", "$value"),
          ("hasLineItems", ""), ("clearLineItems", ""), ("getLineItems", "$idx = NULL"),
          ("setLineItems", "\\App\\Shop\\Item $value, $idx = NULL"), ("getLineItemsList", ""),
          ("addLineItems", "\\App\\Shop\\Item $value"),
          ("hasKind", ""), ("clearKind", ""), ("getKind", ""), ("setKind", "$value")] ∧
      (clauses u.source).flatMap Clause.calls =
        ["_has(1)", "_clear(1)", "_get(1)", "_set(1, $value)",
          "_has(7)", "_clear(7)", "_get(7, $idx)", "_set(7, $value, $idx)", "_get(7)",
          "_add(7, $value)",
          "_has(3)", "_clear(3)", "_get(3)", "_set(3, $value)"] := by
  intro text m table
  have hprinted := SourceUnit.isOf_ofDeclaration table { messages := [m] }
    { namespaceText := some "App" } (by decide) 0 [] m rfl
  have hitem : IsTypeName ".shop.Item" := ⟨["shop", "Item"], by simp, by decide, by decide⟩
  have hkind : IsTypeName ".shop.Kind" := ⟨["shop", "Kind"], by simp, by decide, by decide⟩
  have htypes : ∀ f ∈ m.fields, ∀ r ∈ f.typeName, r = ".shop.Item" ∨ r = ".shop.Kind" := by decide
  have hdefaults : ∀ f ∈ m.fields, f.holdsText = false → ∀ d ∈ f.defaultValue, d = "OPEN" := by
    decide
  have htame : SourceUnit.IsTame table m _ :=
    { printed := hprinted
      table := by decide
      scope := by decide
      message :=
        { name := by decide
          fields := by decide
          types := by
            intro f hf r hr
            rcases htypes f hf r hr with rfl | rfl
            · exact hitem
            · exact hkind }
      packages := by decide
      defaults := by
        intro f hf htext d hd
        obtain rfl := hdefaults f hf htext d hd
        exact isQuietText_of_all rfl (by decide) }
  obtain ⟨⟨body, -, hmethods⟩, hcalls, -⟩ := methods_of_source htame
  refine ⟨_, htame, ?_, hcalls.trans (by decide)⟩
  rw [hmethods, List.map_cons, List.map_map]
  exact congrArg (_ :: ·) (by decide)

end ProtoPhp
