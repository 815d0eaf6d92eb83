/-
One file for each class.

Where types have files of their own, the file of a type is named by the path of its
class.  If types that are declared side by side have different names, then no two
types have the same path, and so each file holds one class; the registrations of
the extensions have a file beside them.

* `Declaration.nodup_paths` — different names side by side make different paths;
* `Assembly.files_of_nodup` — units with different paths have files of their own;
* `classFiles_of_generateFile` — the files of a schema, their names and what they hold.
-/
import Mathlib.Data.List.Nodup
import ProtoPhp.Proofs.FileNames
import ProtoPhp.Proofs.PostOrder

namespace ProtoPhp

open Descriptor

/-- Types that are declared side by side, in a file or in a message of it, have different names. -/
def Descriptor.File.TellsSiblingsApart (file : File) : Prop :=
  (file.messages.map (·.name) ++ file.enums.map (·.name)).Nodup ∧
    ∀ m ∈ file.allMessages, (m.messages.map (·.name) ++ m.enums.map (·.name)).Nodup

instance (file : File) : Decidable file.TellsSiblingsApart :=
  inferInstanceAs (Decidable ((file.messages.map (·.name) ++ file.enums.map (·.name)).Nodup ∧
    ∀ m ∈ file.allMessages, (m.messages.map (·.name) ++ m.enums.map (·.name)).Nodup))

namespace Declaration

theorem ofMessages_eq_flatMap (scope : List String) (ms : List Message) :
    ofMessages scope ms = ms.flatMap (ofMessage scope) := by
  induction ms with
  | nil => rfl
  | cons m ms ih => rw [ofMessages, ih, List.flatMap_cons]

/-- Two paths that leave a scope by different names are different. -/
theorem ne_of_prefix {scope a b : List String} {name name' : String} (hname : name ≠ name')
    (ha : scope ++ [name] <+: a) (hb : scope ++ [name'] <+: b) : a ≠ b := by
  rintro rfl
  have heq := (List.prefix_of_prefix_length_le ha hb (by simp)).eq_of_length (by simp)
  exact hname (List.append_singleton_inj.mp heq).2

/-- Side by side, types with different names have different paths, if this holds inside each message. -/
theorem nodup_paths_append {scope : List String} {ms : List Message} {enums : List Enum}
    (hnames : (ms.map (·.name) ++ enums.map (·.name)).Nodup)
    (hinside : ∀ m ∈ ms, ((ofMessage scope m).map path).Nodup) :
    ((enums.map (fun e => (⟨scope, .enum e⟩ : Declaration)) ++ ofMessages scope ms).map
      path).Nodup := by
  obtain ⟨hms, henums, hapart⟩ := List.nodup_append.mp hnames
  rw [List.map_append, List.map_map, ofMessages_eq_flatMap, List.map_flatMap, List.nodup_append]
  refine ⟨?_, ?_, ?_⟩
  · rw [List.nodup_iff_pairwise_ne, List.pairwise_map] at henums ⊢
    exact henums.imp fun hne => ne_of_prefix hne (List.prefix_refl _) (List.prefix_refl _)
  · rw [List.nodup_flatMap]
    refine ⟨hinside, ?_⟩
    rw [List.nodup_iff_pairwise_ne, List.pairwise_map] at hms
    refine hms.imp fun {m m'} hne => ?_
    show List.Disjoint ((ofMessage scope m).map path) ((ofMessage scope m').map path)
    rw [List.disjoint_left]
    intro p hp hp'
    obtain ⟨d, hd, rfl⟩ := List.mem_map.mp hp
    obtain ⟨d', hd', hpath⟩ := List.mem_map.mp hp'
    exact ne_of_prefix hne (path_of_mem_ofMessage scope m hd) (path_of_mem_ofMessage scope m' hd')
      hpath.symm
  · intro p hp p' hp'
    obtain ⟨e, he, rfl⟩ := List.mem_map.mp hp
    obtain ⟨m, hm, hp'⟩ := List.mem_flatMap.mp hp'
    obtain ⟨d, hd, rfl⟩ := List.mem_map.mp hp'
    have hne : m.name ≠ e.name := hapart _ (List.mem_map_of_mem hm) _ (List.mem_map_of_mem he)
    exact ne_of_prefix hne.symm (List.prefix_refl _) (path_of_mem_ofMessage scope m hd)

mutual

theorem nodup_paths_ofMessage (scope : List String) :
    ∀ m : Message,
      (∀ m' ∈ m.allMessages, (m'.messages.map (·.name) ++ m'.enums.map (·.name)).Nodup) →
      ((ofMessage scope m).map path).Nodup
  | { name, messages, enums, .. }, h => by
    rw [Message.allMessages] at h
    have hinner : ∀ m' ∈ messages, ((ofMessage (scope ++ [name]) m').map path).Nodup :=
      nodup_paths_ofMessages (scope ++ [name]) messages fun m' hm' =>
        h m' (List.mem_cons_of_mem _ hm')
    have hside := nodup_paths_append (h _ List.mem_cons_self) hinner
    rw [ofMessage, List.map_append, List.nodup_append]
    refine ⟨hside, List.nodup_singleton _, ?_⟩
    intro p hp q hq
    obtain rfl := List.mem_singleton.mp hq
    obtain ⟨d, hd, rfl⟩ := List.mem_map.mp hp
    -- What is inside the message has a longer path than the message.
    have hlong : scope.length + 1 < d.path.length := by
      rcases List.mem_append.mp hd with hd | hd
      · obtain ⟨e, -, rfl⟩ := List.mem_map.mp hd
        simp [path]
      · rw [ofMessages_eq_flatMap] at hd
        obtain ⟨m', -, hd⟩ := List.mem_flatMap.mp hd
        have := (path_of_mem_ofMessage _ m' hd).length_le
        simp only [List.length_append, List.length_singleton] at this
        omega
    intro heq
    rw [heq, path, List.length_append, List.length_singleton] at hlong
    exact Nat.lt_irrefl _ hlong

theorem nodup_paths_ofMessages (scope : List String) :
    ∀ ms : List Message,
      (∀ m' ∈ messagesOf ms, (m'.messages.map (·.name) ++ m'.enums.map (·.name)).Nodup) →
      ∀ m ∈ ms, ((ofMessage scope m).map path).Nodup
  | [], _ => nofun
  | m :: ms, h => by
    intro m' hm'
    rw [messagesOf] at h
    rcases List.mem_cons.mp hm' with heq | hm'
    · rw [heq]
      exact nodup_paths_ofMessage scope m fun x hx => h x (List.mem_append_left _ hx)
    · exact nodup_paths_ofMessages scope ms (fun x hx => h x (List.mem_append_right _ hx)) m' hm'

end

/-- Different names side by side make different paths. -/
theorem nodup_paths {file : File} (h : file.TellsSiblingsApart) :
    ((ofFile file).map path).Nodup :=
  nodup_paths_append h.1 (nodup_paths_ofMessages [] file.messages h.2)

/-- Below one namespace, the path of a file tells the path of the class. -/
theorem path_eq_of_filePath_eq {ns : Namespace} {d e : Declaration}
    (hd : ∀ n ∈ d.path, '/' ∉ n.toList) (he : ∀ n ∈ e.path, '/' ∉ n.toList)
    (h : d.filePath ns = e.filePath ns) : d.path = e.path := by
  have hpaths : "/".intercalate d.path = "/".intercalate e.path := by
    rw [filePath, filePath, Namespace.filePath, Namespace.filePath, Namespace.segments_join,
      Namespace.segments_join] at h
    by_cases hns : ns.segments = []
    · simpa [hns] using h
    · rw [String.intercalate_append_of_ne_nil hns d.path_ne_nil,
        String.intercalate_append_of_ne_nil hns e.path_ne_nil] at h
      exact (String.append_right_inj _).mp h
  rw [← Command.FileTree.namesOf_intercalate d.path_ne_nil hd, hpaths,
    Command.FileTree.namesOf_intercalate e.path_ne_nil he]

end Declaration

namespace Assembly

/-- Units with different paths have files of their own, in their order. -/
theorem files_of_nodup {units : List SourceUnit} (h : (units.map SourceUnit.path).Nodup)
    (stem : String) {options : Options} (hmulti : options.multifile = true) (header : Header) :
    files units stem options header =
      units.map fun u => ⟨u.path ++ options.suffixText,
        openingText header.schema header.date ++ u.source⟩ := by
  have hfiles := files_multi units stem options header
  rw [← hmulti] at hfiles
  rw [hfiles, Grouping.eraseDups_of_nodup h, List.map_map]
  refine List.map_congr_left fun u hu => ?_
  have hunits : units.filter (·.path == u.path) = [u] := Grouping.filter_of_nodup h hu
  show (⟨_, _⟩ : GeneratedFile) = _
  rw [hunits, List.map_singleton, String.join_cons, String.join_nil, String.append_empty]

end Assembly

namespace SourceUnit

/-- The units of a file have different paths, whatever the namespace is. -/
theorem nodup_unitPaths {file : File} (hsiblings : file.TellsSiblingsApart)
    (htypes : ∀ d ∈ Declaration.ofFile file, Text.isIdentifier d.name = true) (ns : Namespace)
    (stem : String) : (unitPaths ns stem file).Nodup := by
  have hslash : ∀ d ∈ Declaration.ofFile file, ∀ n ∈ d.path, '/' ∉ n.toList := fun d hd n hn =>
    Text.not_mem_of_isIdentifier
      (Declaration.forall_mem_path (p := fun n => Text.isIdentifier n = true) htypes hd n hn) rfl
  have hregistrations : (registrationPaths stem file).Nodup := by
    rw [registrationPaths]
    split
    · exact List.nodup_nil
    · exact List.nodup_singleton _
  have hpaths := Declaration.nodup_paths hsiblings
  rw [unitPaths, List.nodup_append]
  refine ⟨?_, hregistrations, ?_⟩
  · rw [List.nodup_iff_pairwise_ne, List.pairwise_map] at hpaths ⊢
    refine hpaths.imp_of_mem fun hd he hne heq => hne ?_
    exact Declaration.path_eq_of_filePath_eq (hslash _ hd) (hslash _ he) heq
  · intro p hp q hq heq
    obtain ⟨d, hd, rfl⟩ := List.mem_map.mp hp
    obtain ⟨-, rfl⟩ := mem_registrationPaths.mp hq
    exact Declaration.filePath_ne_registrations ns (htypes d hd) stem heq

end SourceUnit

open SourceUnit

/-- With files for each class, a generated schema has one file for each message and enum at any depth
and one for the registrations if it declares an extension.  The file of a type is named by the names
that lead to its class, and holds the unit of the type and nothing else behind the header.  No two of
the files have the same name. -/
theorem classFiles_of_generateFile {t : PackageTable} {date : Option Timestamp} {file : File}
    {options : Options} {output : Output}
    (htypes : ∀ d ∈ Declaration.ofFile file, Text.isIdentifier d.name = true)
    (hsiblings : file.TellsSiblingsApart) (hmulti : options.multifile = true)
    (h : generateFile t date file options = .ok output) :
    let ns := options.namespaceFor file.package
    ((Declaration.ofFile file).map Declaration.type).Perm
        (file.allMessages.map .message ++ file.allEnums.map .enum) ∧
      ∃ types registrations : List SourceUnit,
        fileUnits t file options = .ok (types ++ registrations, output.warnings) ∧
        List.Forall₂ (Shows ns) (Declaration.ofFile file) types ∧
        (output.files.map GeneratedFile.content =
          (types ++ registrations).map fun u => openingText file.name date ++ u.source) ∧
        output.files.map GeneratedFile.name =
          ((Declaration.ofFile file).map fun d =>
            "/".intercalate (ns.segments ++ d.scope ++ [d.name]) ++ options.suffixText) ++
          (if file.allExtensions = [] then []
            else [Text.fileStem file.name ++ "-extensions" ++ options.suffixText]) ∧
        (output.files.map GeneratedFile.name).Nodup := by
  intro ns
  obtain ⟨hqualified, rfl⟩ := generateFile_eq_ok_iff.mp h
  have hnone : file.references.find? (!Reference.isQualified ·) = none := by
    simpa using hqualified
  have hnodup : ((resolved t ns (Text.fileStem file.name) file).map path).Nodup := by
    rw [map_path_resolved]
    exact nodup_unitPaths hsiblings htypes ns _
  have hfiles := Assembly.files_of_nodup hnodup (Text.fileStem file.name) hmulti ⟨file.name, date⟩
  refine ⟨Declaration.types_perm file, (Declaration.ofFile file).map (ofDeclaration t ns),
    ofRegistrations t ns (Text.fileStem file.name) file, ?_, ?_, ?_, ?_, ?_⟩
  · rw [fileUnits_eq, hnone]
    rfl
  · rw [List.forall₂_map_right_iff, List.forall₂_same]
    exact fun d _ => shows_ofDeclaration t ns d
  · rw [hfiles, List.map_map]
    rfl
  · have hnames : ((resolved t ns (Text.fileStem file.name) file).map
        fun u => u.path ++ options.suffixText) =
          (unitPaths ns (Text.fileStem file.name) file).map (· ++ options.suffixText) := by
      rw [← map_path_resolved t, List.map_map]
      rfl
    rw [hfiles, List.map_map]
    refine hnames.trans ?_
    rw [unitPaths, List.map_append, List.map_map, registrationPaths]
    congr 1
    · refine List.map_congr_left fun d _ => ?_
      simp [Declaration.filePath, Namespace.filePath, Declaration.path]
    · by_cases hextensions : file.allExtensions = []
      · rw [if_pos hextensions, if_pos (File.extendees_eq_nil_iff.mpr hextensions), List.map_nil]
      · rw [if_neg hextensions, if_neg (mt File.extendees_eq_nil_iff.mp hextensions),
          List.map_singleton]
  · rw [hfiles, List.map_map]
    have hsuffix := Assembly.nodup_map_append hnodup options.suffixText
    rwa [List.map_map] at hsuffix

/-- Messages and enums of one name in different scopes, below a namespace with a slash. -/
theorem classFiles_of_generateFile_same_names :
    let file : File :=
      { name := "shop/order.proto", package := "shop"
        messages := [
          { name := "Order", messages := [{ name := "Order" }], enums := [{ name := "State" }]
            extensions := [{ name := "note", extendee := some ".shop.Order" }] }]
        enums := [{ name := "State" }] }
    let options : Options := { namespaceText := some "App/Core.Model", multifile := true }
    file.TellsSiblingsApart ∧ ∃ output, generateFile .empty none file options = .ok output ∧
      output.files.map GeneratedFile.name =
        ["App/Core/Model/State.php", "App/Core/Model/Order/State.php",
          "App/Core/Model/Order/Order.php", "App/Core/Model/Order.php", "order-extensions.php"] ∧
      (output.files.map GeneratedFile.name).Nodup := by
  intro file options
  have hsiblings : file.TellsSiblingsApart := by decide
  have hqualified : ∀ r ∈ file.references, Reference.isQualified r = true := by decide
  obtain ⟨output, hrun⟩ : ∃ output, generateFile .empty none file options = .ok output :=
    ⟨_, generateFile_eq_ok_iff.mpr ⟨hqualified, rfl⟩⟩
  obtain ⟨-, -, -, -, -, -, hnames, hnodup⟩ :=
    classFiles_of_generateFile (by decide) hsiblings rfl hrun
  exact ⟨hsiblings, output, hrun, hnames.trans (by decide), hnodup⟩

end ProtoPhp
