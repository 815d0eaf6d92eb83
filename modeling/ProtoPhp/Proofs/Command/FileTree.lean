/-
Files written one after the other.

A file can be written where its path leads through directories, or through
nothing yet, to something that is no directory.  Writing then makes the missing
directories and puts the file at its place, and touches nothing else.  So files
at different places, none of which is a directory on the way to another, are
all written and all hold what was written to them.

* `FileTree.write_eq` — what writing one file does to a tree;
* `FileTree.Holds.read?_eq` — a file that a tree holds is read back;
* `writeFiles_eq` — what writing several files does to a tree.
-/
import ProtoPhp.Command.Run
import ProtoPhp.Proofs.Command.Path

namespace ProtoPhp.Command

open Wire

open Surroundings (isFileName)

namespace FileTree

theorem node?_put {names : List String} (hne : names ≠ []) (t : FileTree) (node : Node)
    (q : List String) :
    (t.put names node).node? q = if q = names then some node else t.node? q := by
  by_cases hq : q = names
  · subst hq
    rw [node?, if_neg hne, if_pos rfl, put, List.lookup_cons_self]
  · have hb : (q == names) = false := by rwa [beq_eq_false_iff_ne]
    rw [node?, node?, if_neg hq, put, List.lookup_cons, hb]
    simp only [lookup_filter_ne hq]

/-- What making directories along some steps does to a tree. -/
structure Made (t : FileTree) (base steps : List String) (t' : FileTree) : Prop where
  /-- Every node stays as it is. -/
  keeps : ∀ q n, t.node? q = some n → t'.node? q = some n
  /-- The steps lead through directories. -/
  directory : ∀ front, front <+: steps → front ≠ [] → t'.node? (base ++ front) = some .directory
  /-- Nothing but these directories is new. -/
  only : ∀ q n, t'.node? q = some n →
    t.node? q = some n ∨ n = .directory ∧ ∃ front, front <+: steps ∧ q = base ++ front

theorem Made.nil (t : FileTree) (base : List String) : Made t base [] t :=
  ⟨fun _ _ h => h, fun _ hfront hne => absurd (List.prefix_nil.mp hfront) hne,
    fun _ _ h => .inl h⟩

theorem Made.cons {t t₁ t₂ : FileTree} {base steps : List String} {name : String}
    (h : Made t base [name] t₁) (hrest : Made t₁ (base ++ [name]) steps t₂) :
    Made t base (name :: steps) t₂ where
  keeps q n hq := hrest.keeps q n (h.keeps q n hq)
  directory front hfront hne := by
    rcases List.prefix_cons_iff.mp hfront with rfl | ⟨tail, rfl, htail⟩
    · exact absurd rfl hne
    · by_cases hnil : tail = []
      · subst hnil
        exact hrest.keeps _ _ (h.directory [name] (List.prefix_refl _) (List.cons_ne_nil _ _))
      · have := hrest.directory tail htail hnil
        rwa [List.append_assoc] at this
  only q n hq := by
    rcases hrest.only q n hq with hq | ⟨rfl, front, hfront, rfl⟩
    · rcases h.only q n hq with hq | ⟨rfl, front, hfront, rfl⟩
      · exact .inl hq
      · exact .inr ⟨rfl, front, hfront.trans (by simp), rfl⟩
    · refine .inr ⟨rfl, name :: front, List.cons_prefix_cons.mpr ⟨rfl, hfront⟩, ?_⟩
      rw [List.append_assoc]
      rfl

theorem eq_of_prefix_singleton {front : List String} {name : String} (h : front <+: [name])
    (hne : front ≠ []) : front = [name] := by
  rcases List.prefix_cons_iff.mp h with rfl | ⟨tail, rfl, htail⟩
  · exact absurd rfl hne
  · rw [List.prefix_nil.mp htail]

/-- A name that leads nowhere is passed over. -/
theorem enter?_skip (make : Bool) (at' : FileTree × Place) {name : String}
    (h : name = "" ∨ name = ".") : enter? make at' name = some at' := by
  rw [enter?.eq_def, if_pos h]

/-- A step leads into a directory, which is made if nothing is there yet. -/
theorem enter?_true {t : FileTree} {base : List String} {name : String}
    (hfits : isFileName name = true) (hroom : ∀ c, t.node? (base ++ [name]) ≠ some (.file c)) :
    ∃ t', enter? true (t, .inside base) name = some (t', .inside (base ++ [name])) ∧
      Made t base [name] t' := by
  have hname := hfits
  simp only [isFileName, Bool.and_eq_true, decide_eq_true_eq] at hname
  obtain ⟨⟨⟨hempty, hdot⟩, hup⟩, -⟩ := hname
  have hne : base ++ [name] ≠ [] := by simp
  rw [enter?, if_neg (by simp [hempty, hdot])]
  simp only [if_neg hup]
  cases hnode : t.node? (base ++ [name]) with
  | some node =>
    cases node with
    | directory =>
      refine ⟨t, rfl, fun _ _ h => h, ?_, fun _ _ h => .inl h⟩
      intro front hfront hnil
      rw [eq_of_prefix_singleton hfront hnil, hnode]
    | file c => exact absurd hnode (hroom c)
  | none =>
    refine ⟨t.put (base ++ [name]) .directory, by simp [hfits], ?_, ?_, ?_⟩
    · intro q n hq
      rw [node?_put hne, if_neg]
      · exact hq
      · rintro rfl
        rw [hnode] at hq
        cases hq
    · intro front hfront hnil
      rw [eq_of_prefix_singleton hfront hnil, node?_put hne, if_pos rfl]
    · intro q n hq
      rw [node?_put hne] at hq
      by_cases hqn : q = base ++ [name]
      · rw [if_pos hqn] at hq
        cases hq
        exact .inr ⟨rfl, [name], List.prefix_refl _, hqn⟩
      · rw [if_neg hqn] at hq
        exact .inl hq

/-- A walk makes the directories on its way, if no file is in it. -/
theorem walk?_true (t : FileTree) (base names : List String)
    (hfits : ∀ n ∈ steps names, isFileName n = true)
    (hroom : ∀ front, front <+: steps names → front ≠ [] →
      ∀ c, t.node? (base ++ front) ≠ some (.file c)) :
    ∃ t', walk? true (t, .inside base) names = some (t', .inside (base ++ steps names)) ∧
      Made t base (steps names) t' := by
  induction names generalizing t base with
  | nil => exact ⟨t, by rw [steps_nil, List.append_nil]; rfl, Made.nil t base⟩
  | cons name rest ih =>
    rw [walk?, List.foldlM_cons]
    rw [steps_cons] at hfits hroom ⊢
    by_cases hskip : name = "" ∨ name = "."
    · rw [if_pos hskip] at hfits hroom ⊢
      rw [enter?_skip true _ hskip]
      exact ih t base hfits hroom
    · rw [if_neg hskip] at hfits hroom ⊢
      obtain ⟨t₁, henter, hmade⟩ := enter?_true (hfits name List.mem_cons_self)
        (hroom [name] (List.prefix_append _ _) (List.cons_ne_nil _ _))
      have hroom₁ : ∀ front, front <+: steps rest → front ≠ [] →
          ∀ c, t₁.node? (base ++ [name] ++ front) ≠ some (.file c) := by
        intro front hfront _ c hnode
        rcases hmade.only _ _ hnode with hnode | ⟨hfile, -⟩
        · rw [List.append_assoc] at hnode
          exact hroom (name :: front) (List.cons_prefix_cons.mpr ⟨rfl, hfront⟩)
            (List.cons_ne_nil _ _) c hnode
        · cases hfile
      obtain ⟨t₂, hwalk, hmade₂⟩ := ih t₁ (base ++ [name])
        (fun n hn => hfits n (List.mem_cons_of_mem _ hn)) hroom₁
      refine ⟨t₂, ?_, hmade.cons hmade₂⟩
      rw [henter]
      rwa [List.append_assoc] at hwalk

/-- A walk through directories changes nothing. -/
theorem walk?_false (t : FileTree) (base names : List String) (hup : ".." ∉ names)
    (hdirectory : ∀ front, front <+: steps names → front ≠ [] →
      t.node? (base ++ front) = some .directory) :
    walk? false (t, .inside base) names = some (t, .inside (base ++ steps names)) := by
  induction names generalizing base with
  | nil =>
    rw [steps_nil, List.append_nil]
    rfl
  | cons name rest ih =>
    have hrest : ".." ∉ rest := fun h => hup (List.mem_cons_of_mem _ h)
    rw [walk?, List.foldlM_cons]
    rw [steps_cons] at hdirectory ⊢
    by_cases hskip : name = "" ∨ name = "."
    · rw [if_pos hskip] at hdirectory ⊢
      rw [enter?_skip false _ hskip]
      exact ih base hrest hdirectory
    · rw [if_neg hskip] at hdirectory ⊢
      have hname : ¬ name = ".." := fun h => hup (h ▸ List.mem_cons_self)
      have hnode := hdirectory [name] (List.prefix_append _ _) (List.cons_ne_nil _ _)
      have henter : enter? false (t, .inside base) name = some (t, .inside (base ++ [name])) := by
        rw [enter?, if_neg hskip]
        simp only [if_neg hname, hnode]
      have hwalk := ih (base ++ [name]) hrest fun front hfront _ => by
        rw [List.append_assoc]
        exact hdirectory (name :: front) (List.cons_prefix_cons.mpr ⟨rfl, hfront⟩)
          (List.cons_ne_nil _ _)
      rw [henter]
      rwa [List.append_assoc] at hwalk

/-- A path at which a file may be written, as far as its text goes. -/
structure Fits (path : String) : Prop where
  isPath : isPath path = true
  staysBelow : StaysBelow path
  isFileName : ∀ n ∈ placeOf path, isFileName n = true

/-- A path leads through directories, or through nothing yet, to something that is no directory. -/
structure HasRoom (t : FileTree) (path : String) : Prop where
  directory : ∀ front, front <+: directoryOf path → ∀ c, t.node? front ≠ some (.file c)
  file : t.node? (placeOf path) ≠ some .directory

/-- A path leads through directories to a file with some content. -/
structure Holds (t : FileTree) (path : String) (content : Bytes) : Prop where
  directory : ∀ front, front <+: directoryOf path → front ≠ [] → t.node? front = some .directory
  file : t.node? (placeOf path) = some (.file content)

theorem placeOf_ne_nil (path : String) : placeOf path ≠ [] := by
  simp [placeOf]

/-- Where there is nothing yet, there is room at every path. -/
theorem hasRoom_empty (path : String) : HasRoom {} path where
  directory front _ c hnode := by
    by_cases hnil : front = [] <;> simp [node?, hnil] at hnode
  file hnode := by simp [node?, placeOf_ne_nil path] at hnode

theorem not_placeOf_prefix_directoryOf (path : String) : ¬ placeOf path <+: directoryOf path := by
  intro h
  have := h.length_le
  rw [placeOf, List.length_append, List.length_singleton] at this
  omega

/-- Writing makes the missing directories on the way and puts the file at its place. -/
theorem write_eq {t : FileTree} {path : String} (hfits : Fits path) (hroom : t.HasRoom path)
    (content : Bytes) :
    ∃ made, Made t [] (directoryOf path) made ∧
      t.write path content = (made.put (placeOf path) (.file content), .stored) := by
  have hlast : isFileName (lastName path) = true :=
    hfits.isFileName _ (List.mem_append_right _ (List.mem_singleton_self _))
  obtain ⟨made, hwalk, hmade⟩ := walk?_true t [] (namesOf path).dropLast
    (fun n hn => hfits.isFileName n (List.mem_append_left _ hn))
    (fun front hfront _ => hroom.directory front hfront)
  have hfree : made.node? (placeOf path) ≠ some .directory := by
    intro hnode
    rcases hmade.only _ _ hnode with hnode | ⟨-, front, hfront, hplace⟩
    · exact hroom.file hnode
    · rw [List.nil_append] at hplace
      exact not_placeOf_prefix_directoryOf path (hplace ▸ hfront)
  refine ⟨made, hmade, ?_⟩
  have hdirectory : t.toDirectory? true path = some (made, .inside (directoryOf path)) := by
    rw [toDirectory?, if_pos hfits.isPath, start_of_staysBelow hfits.staysBelow]
    exact hwalk
  rw [write, hdirectory]
  have hplace : directoryOf path ++ [lastName path] = placeOf path := rfl
  simp only [hplace, hlast, Bool.true_and, bne_iff_ne, ne_eq, hfree, not_false_eq_true, if_true]

section

variable {t made : FileTree} {path : String} (hmade : Made t [] (directoryOf path) made)
  (content : Bytes)

include hmade

/-- The file that is written is there, and so are the directories on the way to it. -/
theorem holds_put_self : (made.put (placeOf path) (.file content)).Holds path content where
  directory front hfront hne := by
    rw [node?_put (placeOf_ne_nil path), if_neg]
    · exact hmade.directory front hfront hne
    · rintro rfl
      exact not_placeOf_prefix_directoryOf path hfront
  file := by rw [node?_put (placeOf_ne_nil path), if_pos rfl]

/-- Writing a file keeps those at other places. -/
theorem holds_put_other (hroom : t.HasRoom path) {other : String} {c : Bytes}
    (h : t.Holds other c) (hne : placeOf other ≠ placeOf path) :
    (made.put (placeOf path) (.file content)).Holds other c where
  directory front hfront hnil := by
    have hdirectory := h.directory front hfront hnil
    rw [node?_put (placeOf_ne_nil path), if_neg]
    · exact hmade.keeps _ _ hdirectory
    · rintro rfl
      exact hroom.file hdirectory
  file := by
    rw [node?_put (placeOf_ne_nil path), if_neg hne]
    exact hmade.keeps _ _ h.file

/-- Writing a file leaves room at other paths, unless one leads through the place of the other. -/
theorem hasRoom_put_other {other : String} (h : t.HasRoom other)
    (hthrough : ¬ placeOf path <+: directoryOf other)
    (hthrough' : ¬ placeOf other <+: directoryOf path) :
    (made.put (placeOf path) (.file content)).HasRoom other where
  directory front hfront c hnode := by
    have hne : front ≠ placeOf path := by
      rintro rfl
      exact hthrough hfront
    rw [node?_put (placeOf_ne_nil path), if_neg hne] at hnode
    rcases hmade.only _ _ hnode with hnode | ⟨hfile, -⟩
    · exact h.directory front hfront c hnode
    · cases hfile
  file hnode := by
    rw [node?_put (placeOf_ne_nil path)] at hnode
    by_cases hplace : placeOf other = placeOf path
    · rw [if_pos hplace] at hnode
      cases hnode
    · rw [if_neg hplace] at hnode
      rcases hmade.only _ _ hnode with hnode | ⟨-, front, hfront, hother⟩
      · exact h.file hnode
      · rw [List.nil_append] at hother
        exact hthrough' (hother ▸ hfront)

end

/-- What a tree holds at a path is read there. -/
theorem Holds.read?_eq {t : FileTree} {path : String} {content : Bytes} (h : t.Holds path content)
    (hfits : Fits path) (stdin : Bytes) : t.read? stdin path = some content := by
  have hwalk := walk?_false t [] (namesOf path).dropLast
    (fun hup => hfits.staysBelow.2 (List.dropLast_subset _ hup)) h.directory
  have hdirectory : t.toDirectory? false path = some (t, .inside (directoryOf path)) := by
    rw [toDirectory?, if_pos hfits.isPath, start_of_staysBelow hfits.staysBelow]
    exact hwalk
  have hfile : t.node? (directoryOf path ++ [lastName path]) = some (.file content) := h.file
  rw [read?, hdirectory]
  simp only [hfile]

end FileTree

open FileTree

/-- Files at different places, none of which lies on the way to another, are all written if there is
room for them.  Then the tree holds each of them, and still what it held at other places. -/
theorem writeFiles_eq (directory : String) (printed : Bytes) {files : List GeneratedFile}
    {t : FileTree} (hfits : ∀ f ∈ files, Fits (joinPath directory f.name))
    (hroom : ∀ f ∈ files, t.HasRoom (joinPath directory f.name))
    (hthrough : ∀ f ∈ files, ∀ g ∈ files,
      ¬ placeOf (joinPath directory f.name) <+: directoryOf (joinPath directory g.name))
    (hplaces : (files.map fun f => placeOf (joinPath directory f.name)).Nodup) :
    ∃ t', writeFiles directory printed files t = (.success printed, t') ∧
      (∀ f ∈ files, t'.Holds (joinPath directory f.name) (encodeText f.content)) ∧
      ∀ path c, placeOf path ∉ files.map (fun f => placeOf (joinPath directory f.name)) →
        t.Holds path c → t'.Holds path c := by
  induction files generalizing t with
  | nil => exact ⟨t, rfl, nofun, fun _ _ _ h => h⟩
  | cons f fs ih =>
    rw [List.map_cons, List.nodup_cons] at hplaces
    have hself := hroom f List.mem_cons_self
    obtain ⟨made, hmade, hwrite⟩ :=
      write_eq (hfits f List.mem_cons_self) hself (encodeText f.content)
    obtain ⟨t', hrun, hholds, hkept⟩ := ih (t := made.put _ (.file (encodeText f.content)))
      (fun g hg => hfits g (List.mem_cons_of_mem _ hg))
      (fun g hg => hasRoom_put_other hmade _ (hroom g (List.mem_cons_of_mem _ hg))
        (hthrough f List.mem_cons_self g (List.mem_cons_of_mem _ hg))
        (hthrough g (List.mem_cons_of_mem _ hg) f List.mem_cons_self))
      (fun g hg k hk => hthrough g (List.mem_cons_of_mem _ hg) k (List.mem_cons_of_mem _ hk))
      hplaces.2
    refine ⟨t', ?_, ?_, ?_⟩
    · rw [writeFiles]
      simp only [hwrite]
      exact hrun
    · intro g hg
      rcases List.mem_cons.mp hg with rfl | hg
      · -- No later file takes the place of the first one.
        exact hkept _ _ hplaces.1 (holds_put_self hmade _)
      · exact hholds g hg
    · intro path c hpath hc
      rw [List.map_cons, List.mem_cons, not_or] at hpath
      exact hkept path c hpath.2 (holds_put_other hmade _ hself hc hpath.1)

end ProtoPhp.Command
