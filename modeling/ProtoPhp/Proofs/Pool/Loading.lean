/-
What loading does to the files of a pool.

A file keeps its name while it is linked and its options are settled, and it
joins the pool behind the files that are there already.  A file whose name is
taken does not join, so that the names of a loaded pool are distinct and every
file is the first one with its name.

* `Pool.add_files` — one step: the files stay as they are, or one more stands behind them;
* `Pool.load_invariant` — what every step preserves holds of a loaded pool;
* `Pool.nodup_names_of_load` — the files of a loaded pool have names of their own;
* `Pool.file?_of_mem` — each of them is found under its name.
-/
import Mathlib.Data.List.Nodup
import ProtoPhp.Pool.Loading
import ProtoPhp.Proofs.Run

namespace ProtoPhp

/-! ### Names -/

theorem Linking.linkFile_name {pool : List Descriptor.File} {definitions : List Definition}
    {f linked : Descriptor.File} (h : linkFile pool definitions f = .ok linked) :
    linked.name = f.name := by
  simp only [linkFile, bind_eq_ok] at h
  obtain ⟨_, -, messages, -, _, -, services, -, extensions, -, hlinked⟩ := h
  cases hlinked
  rfl

namespace Pool

theorem settleFile_name {p : Pool} {v : Visibility} {f settled : Descriptor.File}
    (h : p.settleFile v f = .ok settled) : settled.name = f.name := by
  simp only [settleFile, bind_eq_ok] at h
  obtain ⟨options, -, messages, -, _, -, _, -, _, -, hsettled⟩ := h
  cases hsettled
  rfl

/-- A file that joins stands behind the files of the pool, under its own name. -/
theorem join_files {p q : Pool} {f : Descriptor.File} (h : p.join f = .ok q) :
    ∃ g, g.name = f.name ∧ q.files = p.files ++ [g] := by
  simp only [join, bind_eq_ok] at h
  obtain ⟨names, -, linked, hlinked, settled, hsettled, hq⟩ := h
  cases hq
  refine ⟨settled, ?_, rfl⟩
  rw [settleFile_name hsettled, Linking.linkFile_name hlinked]

theorem add_files {p q : Pool} {f : Descriptor.File} (h : p.add f = .ok q) :
    q = p ∨ ∃ g, (∀ known ∈ p.files, known.name ≠ g.name) ∧ q.files = p.files ++ [g] := by
  rw [add] at h
  split at h
  · cases h
    exact .inl rfl
  · rename_i unknown
    obtain ⟨g, hname, hfiles⟩ := join_files (mapError_eq_ok.mp h)
    refine .inr ⟨g, ?_, hfiles⟩
    intro known hknown same
    refine unknown (List.any_eq_true.mpr ⟨known, hknown, ?_⟩)
    rw [same, hname]
    exact beq_self_eq_true _

/-! ### Runs -/

/-- What holds of the empty pool and is preserved when a file joins holds of every loaded pool. -/
theorem load_invariant {Inv : Pool → Prop} (empty : Inv {})
    (step : ∀ {p q : Pool} {f : Descriptor.File}, Inv p → p.add f = .ok q → Inv q)
    {schemas : List Wire.Bytes} {pool : Pool} (h : load schemas = .ok pool) : Inv pool := by
  -- The run starts from any pool, so that the induction on the input goes through.
  have run : ∀ {schemas : List Wire.Bytes} {p : Pool}, Inv p →
      schemas.foldlM addEncoded p = .ok pool → Inv pool := by
    intro schemas
    induction schemas with
    | nil =>
      intro p hp hrun
      cases hrun
      exact hp
    | cons bytes schemas ih =>
      intro p hp hrun
      rw [List.foldlM_cons, bind_eq_ok] at hrun
      obtain ⟨q, hq, hrest⟩ := hrun
      rw [addEncoded] at hq
      split at hq
      · cases hq
      · exact ih (step hp hq) hrest
  exact run empty (mapError_eq_ok.mp h)

/-- The files have names of their own. -/
def HasDistinctNames (p : Pool) : Prop := (p.files.map (·.name)).Nodup

theorem HasDistinctNames.add {p q : Pool} {f : Descriptor.File} (hp : p.HasDistinctNames)
    (h : p.add f = .ok q) : q.HasDistinctNames := by
  rcases add_files h with rfl | ⟨g, hnew, hfiles⟩
  · exact hp
  · rw [HasDistinctNames, hfiles, List.map_append, List.nodup_append]
    refine ⟨hp, by simp, ?_⟩
    -- Only the new name could repeat one, and the pool was searched for it.
    intro name hname name' hname'
    obtain ⟨known, hknown, rfl⟩ := List.mem_map.mp hname
    rw [List.map_singleton, List.mem_singleton] at hname'
    rw [hname']
    exact hnew known hknown

/-- The files of a loaded pool have names of their own, however often the input repeats a file. -/
theorem nodup_names_of_load {schemas : List Wire.Bytes} {pool : Pool}
    (h : load schemas = .ok pool) : pool.HasDistinctNames :=
  load_invariant List.nodup_nil HasDistinctNames.add h

/-- A file of a pool is found under its name. -/
theorem file?_of_mem {p : Pool} (hp : p.HasDistinctNames) {f : Descriptor.File}
    (hf : f ∈ p.files) : p.file? f.name = some f :=
  Grouping.find?_of_nodup hp hf

end Pool

end ProtoPhp
