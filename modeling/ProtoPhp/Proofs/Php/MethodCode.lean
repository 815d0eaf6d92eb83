/-
The code of methods.

A piece of code shows methods if they can be read from it, wherever it stands
between methods, and if it makes no other calls than those that are named.  Quiet
code shows none, and the code of an accessor shows the accessor with its call.

* `Php.ShowsMethods` — the methods and the calls of a piece of code;
* `Php.Method.showsMethods_code` — those of an accessor;
* `Php.ShowsMethods.append`, `Php.ShowsMethods.block`, `Php.showsMethods_flatMap` — how
  they are put together.
-/
import ProtoPhp.Proofs.Php.QuietCode

namespace ProtoPhp.Php

open Text

/-- What is read from some clauses between methods: methods, and calls at any place. -/
structure Holds (parts : List Clause) (found : List MethodReading) (calls : List String) : Prop where
  methods : ∀ rest, methodsFrom none (parts ++ rest) = found ++ methodsFrom none rest
  calls : parts.flatMap Clause.calls = calls

/-- What is read from a piece of code between methods. -/
def ShowsMethods (code : Code) (found : List MethodReading) (calls : List String) : Prop :=
  ∃ parts, Shows code parts ∧ Holds parts found calls

section ShowsMethods

variable {code code' : Code} {found found' : List MethodReading} {calls calls' : List String}

theorem ShowsQuiet.showsMethods (h : ShowsQuiet code) : ShowsMethods code [] [] := by
  obtain ⟨parts, hshows, hquiet⟩ := h
  refine ⟨parts, hshows, ?_, List.flatMap_eq_nil_iff.mpr hquiet.calls⟩
  exact methodsFrom_quiet hquiet.headers

theorem ShowsMethods.append (h : ShowsMethods code found calls)
    (h' : ShowsMethods code' found' calls') :
    ShowsMethods (code ++ code') (found ++ found') (calls ++ calls') := by
  obtain ⟨parts, hshows, hmethods, hcalls⟩ := h
  obtain ⟨parts', hshows', hmethods', hcalls'⟩ := h'
  refine ⟨parts ++ parts', hshows.append hshows', fun rest => ?_, ?_⟩
  · rw [List.append_assoc, hmethods, hmethods', List.append_assoc]
  · rw [List.flatMap_append, hcalls, hcalls']

theorem showsMethods_flatMap {α : Type} {f : α → Code} {g : α → List MethodReading}
    {k : α → List String} {xs : List α} (h : ∀ x ∈ xs, ShowsMethods (f x) (g x) (k x)) :
    ShowsMethods (xs.flatMap f) (xs.flatMap g) (xs.flatMap k) := by
  induction xs with
  | nil => exact showsQuiet_nil.showsMethods
  | cons x xs ih =>
    rw [List.flatMap_cons, List.flatMap_cons, List.flatMap_cons]
    exact (h x List.mem_cons_self).append (ih fun y hy => h y (List.mem_cons_of_mem _ hy))

/-- What opens a class or a namespace starts no method. -/
theorem ShowsMethods.block (h : ShowsMethods code found calls) {opening : String}
    {cs : List Char} (hopening : LooksLike opening (cs ++ ['\x7b']))
    (hstops : ∀ c ∈ cs, isStop c = false)
    (hheader : (⟨String.ofList (trim cs), some '\x7b'⟩ : Clause).header? = none)
    (hcalls : callsIn cs = []) : ShowsMethods (Php.block opening code) found calls := by
  obtain ⟨parts, hshows, hmethods, hparts⟩ := h
  have hclose : (⟨"", some '\x7d'⟩ : Clause).header? = none := header?_of_stop (by simp)
  refine ⟨_, hshows.block hopening hstops, fun rest => ?_, ?_⟩
  · rw [List.append_assoc, List.cons_append, methodsFrom, hheader]
    show methodsFrom none (parts ++ (_ :: rest)) = _
    rw [hmethods, methodsFrom, hclose]
  · rw [List.flatMap_append, List.flatMap_cons, calls_trim hcalls, hparts]
    exact List.append_nil _

/-- What is opened by a word and a name behind it shows what is inside. -/
theorem ShowsMethods.block_of_word (h : ShowsMethods code found calls)
    {opening word name tail : String} {c : Char}
    (hopening : opening = word ++ " " ++ name ++ tail ++ "\x7b") (hword : IsWord word)
    (hother : isModifier word.toList = false ∧ word ≠ "function") (hname : IsInert name)
    (hhead : name.toList.head? = some c) (hc : isWordChar c = true) (htail : IsQuietText tail) :
    ShowsMethods (Php.block opening code) found calls := by
  have hspace : IsQuietText " " := isQuietText_of_all String.toList_ofList (by decide)
  have hquiet : IsQuietText (word ++ " " ++ name ++ tail) :=
    (((isQuietText_of_isInert hword.isInert).append hspace).append (isQuietText_of_isInert hname)).append htail
  have hbrace : LooksLike "\x7b" ['\x7b'] := looksLike_plain (by decide)
  have hlook : LooksLike opening ((word ++ " " ++ name ++ tail).toList ++ ['\x7b']) := by
    rw [hopening]
    exact (looksLike_plain fun c hc => (hquiet.and hc).1).append hbrace
  have harrow : '>' ∉ (word ++ " " ++ name ++ tail).toList := fun hc => (hquiet.and hc).2.2 rfl
  obtain ⟨rest, hrest⟩ := List.head?_eq_some_iff.mp hhead
  have htext : (word ++ " " ++ name ++ tail).toList =
      word.toList ++ ' ' :: c :: (rest ++ tail.toList) := by
    simp [hrest]
  refine h.block hlook (fun c hc => (hquiet.and hc).2.1) ?_ ?_
  · rw [htext]
    exact header?_trim hword hother (isWhitespace_of_isWordChar hc) _
  · exact callsIn_of_no_arrow harrow

/-- A namespace shows what is inside. -/
theorem ShowsMethods.namespaceBlock (h : ShowsMethods code found calls) {ns : Namespace}
    (hns : ns.HasWords) : ShowsMethods (Php.namespaceBlock ns code) found calls := by
  have hbody := showsQuiet_blank.showsMethods.append h
  rw [Php.namespaceBlock]
  split
  · have hline : isQuietLine '\x7b' "namespace \x7b".toList = true := by decide
    obtain ⟨hlook, hstops, hcalls⟩ := looksLike_of_isQuietLine rfl (by decide) hline
    exact hbody.block hlook hstops (by decide) hcalls
  · rename_i hroot
    have hstart : "namespace " = "namespace" ++ " " := by decide
    have hend : " \x7b" = " " ++ "\x7b" := by decide
    have hopening : "namespace " ++ toString ns ++ " \x7b" =
        "namespace" ++ " " ++ toString ns ++ " " ++ "\x7b" := by
      rw [hstart, hend, ← String.append_assoc]
    have hne : ns ≠ .root := by
      rintro rfl
      exact hroot rfl
    obtain ⟨c, hhead, hc⟩ := hns.head?_toString hne
    exact hbody.block_of_word hopening (by decide) (by decide) hns.isInert hhead hc
      (isQuietText_of_all String.toList_ofList (by decide))

theorem ShowsMethods.of_render (h : ShowsMethods code found calls) :
    methods (render code) = found ∧ (clauses (render code)).flatMap Clause.calls = calls := by
  obtain ⟨parts, hshows, hmethods, hcalls⟩ := h
  have hmethods := hmethods []
  rw [List.append_nil] at hmethods
  rw [methods, hshows.clauses_eq, hmethods]
  exact ⟨List.append_nil found, hcalls⟩

end ShowsMethods

namespace Method

/-- Nothing in the documentation of a method closes it, and the rest of the method is quiet. -/
structure IsRegular (m : Method) : Prop where
  summary : '/' ∉ m.doc.summary.toList
  documented : ∀ p ∈ m.doc.parameters, '/' ∉ p.toList
  result : '/' ∉ m.doc.result.toList
  name : IsInert m.name
  parameters : IsQuietText m.parameters
  call : IsQuietText m.call
  closed : m.call.toList.getLast? = some ')'

/-- What is written in front of the body of a method. -/
def declaration (m : Method) : String := "public function " ++ m.name ++ "(" ++ m.parameters ++ ")"

/-- The statement in the body of a method, without its semicolon. -/
def statement (m : Method) : String := "return $this->" ++ m.call

/-- The method as it is read: public, and with one statement in its body. -/
def reading (m : Method) : MethodReading where
  modifiers := ["public"]
  name := m.name
  parameters := m.parameters
  body := [⟨m.statement, some ';'⟩]

variable {m : Method}

/-- The lines of a doc comment between the first and the last. -/
def docLines (d : DocComment) : List String :=
  [" * " ++ d.summary, " *"] ++ d.parameters.map (" * @param " ++ ·) ++ [" * @return " ++ d.result]

theorem docCode_eq (d : DocComment) :
    d.code = lines (["/*" ++ "*"] ++ docLines d ++ [" " ++ "*/"]) := by
  have hopening : "/**" = "/*" ++ "*" := by decide
  have hclosing : " */" = " " ++ "*/" := by decide
  rw [DocComment.code, hopening, hclosing, docLines]
  simp

theorem IsRegular.docLines (h : m.IsRegular) : ∀ s ∈ docLines m.doc, s ≠ "" ∧ '/' ∉ s.toList := by
  intro s hs
  simp only [Method.docLines, List.mem_append, List.mem_cons, List.not_mem_nil, or_false,
    List.mem_map] at hs
  rcases hs with ((rfl | rfl) | ⟨p, hp, rfl⟩) | rfl
  · simpa [String.append_eq_empty_iff] using h.summary
  · decide
  · simpa [String.append_eq_empty_iff] using h.documented p hp
  · simpa [String.append_eq_empty_iff] using h.result

theorem shows_doc (h : m.IsRegular) : Shows m.doc.code [] := by
  rw [docCode_eq]
  exact shows_blockComment "*" " " h.docLines (by decide) (by decide)

theorem IsRegular.isQuietText_declaration (h : m.IsRegular) : IsQuietText m.declaration := by
  have hfront : IsQuietText "public function " := isQuietText_of_all String.toList_ofList (by decide)
  have hopen : IsQuietText "(" := by decide
  have hclose : IsQuietText ")" := by decide
  exact (((hfront.append (isQuietText_of_isInert h.name)).append hopen).append h.parameters).append
    hclose

theorem shows_declaration (h : m.IsRegular) {body : Code} {parts : List Clause}
    (hbody : Shows body parts) :
    Shows (block (m.declaration ++ "\x7b") body)
      (⟨m.declaration, some '\x7b'⟩ :: parts ++ [⟨"", some '\x7d'⟩]) := by
  have hquiet := h.isQuietText_declaration
  have hfirst : m.declaration.toList.head? = some 'p' := by
    unfold declaration
    simp
  have hlast : m.declaration.toList.getLast? = some ')' := by
    unfold declaration
    rw [String.toList_append, List.getLast?_append]
    rfl
  have htrim := trim_eq_self hfirst hlast (by decide) (by decide)
  have hbrace : LooksLike "\x7b" ['\x7b'] := looksLike_plain (by decide)
  have hlook := (looksLike_plain fun c hc => (hquiet.and hc).1).append hbrace
  have hblock := Shows.block hlook (fun c hc => (hquiet.and hc).2.1) hbody
  rwa [htrim, String.ofList_toList] at hblock

theorem shows_statement (h : m.IsRegular) :
    Shows (lines [m.statement ++ ";"]) [⟨m.statement, some ';'⟩] := by
  have hchars : ∀ c ∈ m.statement.toList, isPlainChar c = true ∧ isStop c = false := by
    intro c hc
    unfold statement at hc
    rw [String.toList_append, List.mem_append, String.toList_ofList] at hc
    rcases hc with hc | hc
    · exact plain_of_all (by decide) c hc
    · exact ⟨(h.call.and hc).1, (h.call.and hc).2.1⟩
  have hfirst : m.statement.toList.head? = some 'r' := by
    unfold statement
    simp
  have hlast : m.statement.toList.getLast? = some ')' := by
    unfold statement
    rw [String.toList_append, List.getLast?_append, h.closed]
    rfl
  have htrim := trim_eq_self hfirst hlast (by decide) (by decide)
  have hsemicolon : LooksLike ";" [';'] := looksLike_plain (by decide)
  have hlook := (looksLike_plain fun c hc => (hchars c hc).1).append hsemicolon
  have hclause := shows_clause hlook (fun c hc => (hchars c hc).2) (by decide)
  rwa [htrim, String.ofList_toList] at hclause

/-- A method is its comment, a block with one statement, and a blank line. -/
theorem code_eq (m : Method) :
    m.code = m.doc.code ++ block (m.declaration ++ "\x7b") (lines [m.statement ++ ";"]) ++ blank := by
  have hend : ")\x7b" = ")" ++ "\x7b" := by decide
  unfold code declaration
  rw [hend, ← String.append_assoc]
  rfl

theorem shows_code (h : m.IsRegular) :
    Shows m.code (⟨m.declaration, some '\x7b'⟩ :: m.reading.body ++ [⟨"", some '\x7d'⟩]) := by
  have hall := ((shows_doc h).append (shows_declaration h (shows_statement h))).append shows_blank
  rw [List.nil_append, List.append_nil] at hall
  rw [code_eq]
  exact hall

/-- An accessor is read with its call. -/
theorem showsMethods_code (h : m.IsRegular) : ShowsMethods m.code [m.reading] [m.call] := by
  have hheader : (⟨m.declaration, some '\x7b'⟩ : Clause).header? = some m.reading.toMethodHeader := by
    refine header?_of_method ["public"] (by decide) (h.name.not_mem rfl) ?_ rfl
    unfold declaration
    simp
  -- A call has an arrow, which stands at the start of the statement and nowhere else.
  have hdeclaration : (⟨m.declaration, some '\x7b'⟩ : Clause).calls = [] := by
    rw [Clause.calls, callsIn_of_no_arrow fun hc => (h.isQuietText_declaration.and hc).2.2 rfl]
    rfl
  have hstatement : (⟨m.statement, some ';'⟩ : Clause).calls = [m.call] := by
    have hfront : callsIn "return $this->".toList = [[]] := by decide
    unfold statement
    rw [Clause.calls, String.toList_append, callsIn_append _ fun hc => (h.call.and hc).2.2 rfl,
      hfront]
    simp
  refine ⟨_, shows_code h, fun rest => ?_, ?_⟩
  · exact methodsFrom_method hheader (nested_of_stop (by simp) (by simp)) rest
  · rw [List.flatMap_append, List.flatMap_cons, hdeclaration, reading, List.flatMap_singleton,
      hstatement]
    rfl

end Method

/-- The method for the descriptor as it is read, with some body. -/
def descriptorReading (body : List Clause) : MethodReading where
  modifiers := ["public", "static"]
  name := "descriptor"
  parameters := "\\DrSlump\\Protobuf\\Descriptor $descriptor = NULL"
  body := body

/-- The method for the descriptor makes no call on the object at hand. -/
theorem showsMethods_descriptorCode {owner : Namespace} (howner : owner.HasWords)
    (hne : owner ≠ .root) {fields : List Field} (h : ∀ f ∈ fields, ShowsQuiet (f.metadata f.name)) :
    ∃ body, (∀ c ∈ body, c.calls = []) ∧
      ShowsMethods (descriptorCode owner fields) [descriptorReading body] [] := by
  obtain ⟨body, hbody, hshows⟩ := shows_descriptorCode howner hne h
  have hheader : descriptorDeclaration.header? = some (descriptorReading body).toMethodHeader := by
    refine header?_of_method ["public", "static"] (by decide) (by decide) ?_ rfl
    unfold descriptorDeclaration
    simp
  have hnone : descriptorDeclaration.calls = [] := by
    unfold descriptorDeclaration
    rw [Clause.calls, String.toList_ofList]
    decide
  refine ⟨body, hbody.calls, _, hshows, methodsFrom_method hheader hbody.nested, ?_⟩
  rw [List.flatMap_append, List.flatMap_cons, hnone, List.flatMap_eq_nil_iff.mpr hbody.calls]
  rfl

end ProtoPhp.Php
