/-
The two ways of putting units into files.

The units of a schema file either go into one file or are spread over files by
their paths.  Both ways write the same header and the same units, and differ
only in where a unit ends up.

* `openingText` — the header, from the name of the schema and the date;
* `Assembly.files_single`, `Assembly.files_multi` — the files of a list of units;
* `Assembly.join_sources` — if no two units share a path, then the spread files
  one after the other hold what the one file holds;
* `generateFile_modes` — the two outcomes of a schema file.
-/
import ProtoPhp.Proofs.Units

namespace ProtoPhp

/-- What every file of a schema opens with.  Without a date all its digits are zero. -/
def openingText (schema : String) (date : Option Timestamp) : String :=
  "<?php\n// DO NOT EDIT! Generated by Protobuf for PHP protoc plugin " ++ version ++
    "\n// Source: " ++ schema ++ "\n//   Date: " ++ date.elim "0000-00-00 00:00:00" toString ++ "\n\n"

theorem Header.text_eq (h : Header) : h.text = openingText h.schema h.date := by
  obtain ⟨schema, date⟩ := h
  cases date <;> rfl

namespace Assembly

theorem parts_multi (stem : String) (units : List SourceUnit) :
    parts true stem units = (units.map SourceUnit.path).eraseDups.map fun path =>
      (path, units.filter (·.path == path)) :=
  Grouping.grouped_eq SourceUnit.path units

/-- One file takes all units. -/
theorem files_single (units : List SourceUnit) (stem : String) (options : Options)
    (header : Header) :
    files units stem { options with multifile := false } header =
      [⟨stem ++ options.suffixText, openingText header.schema header.date ++
        String.join (units.map SourceUnit.source)⟩] := by
  rw [← Header.text_eq]
  rfl

/-- Each path has a file with the units of that path. -/
theorem files_multi (units : List SourceUnit) (stem : String) (options : Options)
    (header : Header) :
    files units stem { options with multifile := true } header =
      (units.map SourceUnit.path).eraseDups.map fun path =>
        ⟨path ++ options.suffixText, openingText header.schema header.date ++
          String.join ((units.filter (·.path == path)).map SourceUnit.source)⟩ := by
  show (parts true stem units).map _ = _
  rw [parts_multi, List.map_map, ← Header.text_eq]
  rfl

/-- A suffix keeps names apart. -/
theorem nodup_map_append {names : List String} (h : names.Nodup) (suffix : String) :
    (names.map (· ++ suffix)).Nodup := by
  refine List.Pairwise.map _ (fun a b hne heq => hne ?_) h
  exact (String.append_left_inj suffix).mp heq

/-- Every unit has a place in exactly one file. -/
theorem flatMap_filter_path_perm (units : List SourceUnit) :
    ((units.map SourceUnit.path).eraseDups.flatMap fun path =>
      units.filter (·.path == path)).Perm units := by
  refine Grouping.flatMap_filter_perm SourceUnit.path
    (Grouping.nodup_eraseDups_map SourceUnit.path units) fun u hu => ?_
  exact List.mem_eraseDups.mpr (List.mem_map_of_mem hu)

theorem join_map_join {α : Type} (f : α → List String) (xs : List α) :
    String.join (xs.map fun x => String.join (f x)) = String.join (xs.flatMap f) := by
  induction xs with
  | nil => rfl
  | cons x xs ih => rw [List.map_cons, String.join_cons, ih, List.flatMap_cons, String.join_append]

/-- If no two units share a path, then the sources in their files add up to those in one file. -/
theorem join_sources {units : List SourceUnit} (h : (units.map SourceUnit.path).Nodup) :
    String.join ((units.map SourceUnit.path).eraseDups.map fun path =>
        String.join ((units.filter (·.path == path)).map SourceUnit.source)) =
      String.join (units.map SourceUnit.source) := by
  rw [join_map_join, ← List.map_flatMap, Grouping.eraseDups_of_nodup h,
    Grouping.flatMap_filter_of_nodup SourceUnit.path h]

end Assembly

/-- Whether types get files of their own changes neither the units of a schema file nor its failure or
its warnings.  In one way of writing there is one file with the sources of all units in order; in the
other there is one file for each path, in the order in which the paths first come, with the sources of
the units with that path in order.  Behind the same header, which alone depends on the date, the files
of the second kind hold the units of the first, each of them once. -/
theorem generateFile_modes (t : PackageTable) (file : Descriptor.File) (options : Options) :
    (∃ e, ∀ date multifile, generateFile t date file { options with multifile } = .error e) ∨
      ∃ units warnings, fileUnits t file options = .ok (units, warnings) ∧
        let path (u : SourceUnit) : String := "/".intercalate (u.scope.segments ++ [u.name])
        let paths : List String := (units.map path).eraseDups
        let unitsAt (p : String) : List SourceUnit := units.filter (path · == p)
        (∀ date,
          generateFile t date file { options with multifile := false } =
            .ok ⟨[⟨Text.fileStem file.name ++ options.suffixText,
              openingText file.name date ++ String.join (units.map SourceUnit.source)⟩], warnings⟩ ∧
          generateFile t date file { options with multifile := true } =
            .ok ⟨paths.map fun p => ⟨p ++ options.suffixText,
              openingText file.name date ++ String.join ((unitsAt p).map SourceUnit.source)⟩,
              warnings⟩) ∧
        (paths.map (· ++ options.suffixText)).Nodup ∧
        (paths.flatMap unitsAt).Perm units ∧
        ((units.map path).Nodup →
          String.join (paths.map fun p => String.join ((unitsAt p).map SourceUnit.source)) =
            String.join (units.map SourceUnit.source)) := by
  -- Units and warnings are found before the mode is looked at.
  have hrun : ∀ date multifile, generateFile t date file { options with multifile } =
      (fileUnits t file options >>= fun r =>
        pure ⟨Assembly.files r.1 (Text.fileStem file.name) { options with multifile }
          ⟨file.name, date⟩, r.2⟩) := fun _ _ => rfl
  cases hunits : fileUnits t file options with
  | error e =>
    refine .inl ⟨e, fun date multifile => ?_⟩
    rw [hrun, hunits]
    rfl
  | ok r =>
    obtain ⟨units, warnings⟩ := r
    refine .inr ⟨units, warnings, rfl, fun date => ⟨?_, ?_⟩, ?_, ?_, ?_⟩
    · rw [hrun, hunits]
      show Except.ok (Output.mk _ warnings) = _
      rw [Assembly.files_single]
    · rw [hrun, hunits]
      show Except.ok (Output.mk _ warnings) = _
      rw [Assembly.files_multi]
      rfl
    · exact Assembly.nodup_map_append (Grouping.nodup_eraseDups_map SourceUnit.path units) _
    · exact Assembly.flatMap_filter_path_perm units
    · exact Assembly.join_sources

/-- A message, the one inside it and an extension have files of their own, which add up to the one
file. -/
theorem generateFile_modes_three_paths :
    let file : Descriptor.File :=
      { name := "shop/order.proto", package := "shop"
        messages := [{ name := "Order", messages := [{ name := "Line" }] }]
        extensions := [{ name := "note", extendee := some ".shop.Order" }] }
    let path (u : SourceUnit) : String := "/".intercalate (u.scope.segments ++ [u.name])
    ∃ units warnings, fileUnits .empty file {} = .ok (units, warnings) ∧
      units.map path = ["shop/Order/Line", "shop/Order", "order-extensions"] ∧
      String.join ((units.map path).eraseDups.map fun p =>
          String.join ((units.filter (path · == p)).map SourceUnit.source)) =
        String.join (units.map SourceUnit.source) := by
  intro file path
  have hqualified : file.references.find? (!Reference.isQualified ·) = none := by decide
  rcases generateFile_modes .empty file {} with ⟨e, he⟩ | ⟨units, warnings, hunits, -, -, -, hjoin⟩
  · have he := he none false
    rw [generateFile_eq, hqualified] at he
    cases he
  · have hpaths : units.map path = ["shop/Order/Line", "shop/Order", "order-extensions"] := by
      rw [fileUnits_eq, hqualified] at hunits
      cases hunits
      decide
    refine ⟨units, warnings, hunits, hpaths, hjoin ?_⟩
    show (units.map path).Nodup
    rw [hpaths]
    decide

/-- An enum and a message of one name share a file, in which the enum comes first. -/
example :
    (Output.files <$> generateFile .empty none
      { name := "a.proto", package := "p", messages := [{ name := "M" }], enums := [{ name := "M" }] }
      { multifile := true }).map (List.map GeneratedFile.name) = .ok ["p/M.php"] := rfl

end ProtoPhp
