/-
The types that a schema file declares.

Messages and enums are listed in the order in which their classes are printed:
what a message declares comes before the message itself.  A declaration is told
apart by its path, which is the names of the messages around it and its own.

* `Declaration.ofFile` — the declarations of a file;
* `Declaration.exists_of_take` — every beginning of a path is the path of a
  declaration of the same file.
-/
import ProtoPhp.Descriptor.Basic
import ProtoPhp.Text.Dotted

namespace ProtoPhp

/-- A message or an enum. -/
inductive DeclaredType where
  | message (m : Descriptor.Message)
  | enum (e : Descriptor.Enum)
  deriving Inhabited

/-- A type and the place of its declaration. -/
structure Declaration where
  /-- The names of the messages around the type, outermost first. -/
  scope : List String
  type : DeclaredType
  deriving Inhabited

namespace Declaration

open Descriptor

/-- The name of the type. -/
def name (d : Declaration) : String :=
  match d.type with
  | .message m => m.name
  | .enum e => e.name

/-- The names of the messages around the type, then its own. -/
def path (d : Declaration) : List String := d.scope ++ [d.name]

/-- The full name of a type of a package. -/
def fullName (package : String) (d : Declaration) : String :=
  Text.qualify package (".".intercalate d.path)

mutual

/-- The types that a message declares, then the message. -/
def ofMessage (scope : List String) : Message → List Declaration
  | m@{ name, messages, enums, .. } =>
    enums.map (fun e => ⟨scope ++ [name], .enum e⟩) ++ ofMessages (scope ++ [name]) messages ++
      [⟨scope, .message m⟩]

/-- The types that a list of messages declares, with the messages. -/
def ofMessages (scope : List String) : List Message → List Declaration
  | [] => []
  | m :: ms => ofMessage scope m ++ ofMessages scope ms

end

/-- The types that a file declares. -/
def ofFile (file : File) : List Declaration :=
  file.enums.map (fun e => ⟨[], .enum e⟩) ++ ofMessages [] file.messages

theorem path_ne_nil (d : Declaration) : d.path ≠ [] := by
  simp [path]

theorem name_mem_path (d : Declaration) : d.name ∈ d.path :=
  List.mem_append_right _ (List.mem_singleton_self _)

theorem mem_ofMessage_self (scope : List String) (m : Message) :
    ⟨scope, .message m⟩ ∈ ofMessage scope m := by
  cases m
  rw [ofMessage]
  exact List.mem_append_right _ (List.mem_singleton_self _)

mutual

/-- Inside a message every path goes through the name of the message. -/
theorem path_of_mem_ofMessage (scope : List String) {d : Declaration} :
    ∀ m : Message, d ∈ ofMessage scope m → scope ++ [m.name] <+: d.path
  | { name, messages, enums, .. }, h => by
    rw [ofMessage, List.mem_append, List.mem_append, List.mem_map, List.mem_singleton] at h
    rcases h with (⟨e, -, rfl⟩ | h) | rfl
    · exact List.prefix_append _ _
    · exact (path_of_mem_ofMessages (scope ++ [name]) messages h)
    · exact List.prefix_refl _

/-- Inside a list of messages every path goes through the scope. -/
theorem path_of_mem_ofMessages (scope : List String) {d : Declaration} :
    ∀ ms : List Message, d ∈ ofMessages scope ms → scope <+: d.path
  | [], h => by
    rw [ofMessages] at h
    cases h
  | m :: ms, h => by
    rw [ofMessages, List.mem_append] at h
    rcases h with h | h
    · exact (List.prefix_append _ _).trans (path_of_mem_ofMessage scope m h)
    · exact path_of_mem_ofMessages scope ms h

end

/-- A beginning of a path is the path itself or lies in the scope. -/
theorem eq_path_or_prefix_scope {front : List String} {d : Declaration} (h : front <+: d.path) :
    front = d.path ∨ front <+: d.scope := by
  rwa [path, List.prefix_concat_iff] at h

mutual

/-- A beginning of a path that reaches into a message is the path of a declaration there. -/
theorem exists_of_prefix_ofMessage (scope : List String) {front : List String} {d : Declaration}
    (hlen : scope.length < front.length) (hd : front <+: d.path) :
    ∀ m : Message, d ∈ ofMessage scope m → ∃ e ∈ ofMessage scope m, e.path = front
  | { name, messages, enums, .. }, h => by
    have hin := path_of_mem_ofMessage scope _ h
    by_cases hone : front.length = scope.length + 1
    · -- The message itself answers for the shortest such beginning.
      refine ⟨_, mem_ofMessage_self scope _, ?_⟩
      exact (List.prefix_of_prefix_length_le hin hd (by simp [hone])).eq_of_length (by simp [hone])
    · rw [ofMessage, List.mem_append, List.mem_append, List.mem_map, List.mem_singleton] at h
      rcases h with (⟨e, he, rfl⟩ | h) | rfl
      · rcases eq_path_or_prefix_scope hd with rfl | hs
        · refine ⟨_, ?_, rfl⟩
          rw [ofMessage]
          exact List.mem_append_left _ (List.mem_append_left _ (List.mem_map_of_mem he))
        · have := hs.length_le
          rw [List.length_append, List.length_singleton] at this
          omega
      · have hlen' : (scope ++ [name]).length < front.length := by
          rw [List.length_append, List.length_singleton]
          omega
        obtain ⟨e, he, hpath⟩ :=
          exists_of_prefix_ofMessages (scope ++ [name]) hlen' hd messages h
        refine ⟨e, ?_, hpath⟩
        rw [ofMessage]
        exact List.mem_append_left _ (List.mem_append_right _ he)
      · rcases eq_path_or_prefix_scope hd with rfl | hs
        · exact ⟨_, mem_ofMessage_self scope _, rfl⟩
        · exact absurd hs.length_le (Nat.not_le_of_lt hlen)

/-- A beginning of a path that reaches into a list of messages is the path of a declaration there. -/
theorem exists_of_prefix_ofMessages (scope : List String) {front : List String} {d : Declaration}
    (hlen : scope.length < front.length) (hd : front <+: d.path) :
    ∀ ms : List Message, d ∈ ofMessages scope ms → ∃ e ∈ ofMessages scope ms, e.path = front
  | [], h => by
    rw [ofMessages] at h
    cases h
  | m :: ms, h => by
    rw [ofMessages, List.mem_append] at h
    rcases h with h | h
    · obtain ⟨e, he, hpath⟩ := exists_of_prefix_ofMessage scope hlen hd m h
      exact ⟨e, by rw [ofMessages]; exact List.mem_append_left _ he, hpath⟩
    · obtain ⟨e, he, hpath⟩ := exists_of_prefix_ofMessages scope hlen hd ms h
      exact ⟨e, by rw [ofMessages]; exact List.mem_append_right _ he, hpath⟩

end

/-- Every beginning of a path is the path of a declaration of the same file. -/
theorem exists_of_take {file : File} {d : Declaration} (hd : d ∈ ofFile file) {k : Nat}
    (hpos : 0 < k) (hk : k ≤ d.path.length) : ∃ e ∈ ofFile file, e.path = d.path.take k := by
  have hpre : d.path.take k <+: d.path := List.take_prefix k d.path
  have hlen : ([] : List String).length < (d.path.take k).length := by
    rw [List.length_take, List.length_nil]
    omega
  have hd' := hd
  rw [ofFile, List.mem_append, List.mem_map] at hd
  rcases hd with ⟨e, he, rfl⟩ | hd
  · -- Outside of messages a path has one name.
    refine ⟨_, hd', ?_⟩
    rcases eq_path_or_prefix_scope hpre with h | h
    · exact h.symm
    · have := h.length_le
      simp only [List.length_nil] at this hlen
      omega
  · obtain ⟨e, he, hpath⟩ := exists_of_prefix_ofMessages [] hlen hpre file.messages hd
    exact ⟨e, by rw [ofFile]; exact List.mem_append_right _ he, hpath⟩

/-- What holds of the names of all declarations of a file holds of all names in their paths. -/
theorem forall_mem_path {file : File} {p : String → Prop} (h : ∀ d ∈ ofFile file, p d.name)
    {d : Declaration} (hd : d ∈ ofFile file) : ∀ name ∈ d.path, p name := by
  intro name hname
  obtain ⟨i, hi, rfl⟩ := List.getElem_of_mem hname
  obtain ⟨e, he, hpath⟩ := exists_of_take hd (Nat.succ_pos i) hi
  -- The name ends the beginning up to it.
  rw [List.take_succ_eq_append_getElem hi, path] at hpath
  rw [← (List.append_singleton_inj.mp hpath).2]
  exact h e he

end Declaration

end ProtoPhp
