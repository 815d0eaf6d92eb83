/-
The ways into the generator.

A request and a set of schema files may lay out the same names, parameter and
schema files in many ways.  Both are read back to these, and from there on the
two ways share their steps: the parameter, the pool, and one file after the
other.  They part where no names are given: a request then asks for nothing, a
set for all of its files.

* `CodeRequest.decode_of_isLayout`, `decodeDescriptorSet_of_isLayout` — what is read from a layout;
* `Pool.generate_all` — all files of a pool, named or given, generate the same output;
* `entryPoints_agree` — the ways agree, and where they part.
-/
import ProtoPhp.Proofs.Pool.Loading
import ProtoPhp.Proofs.Run
import ProtoPhp.Proofs.Wire.Layout

namespace ProtoPhp

open Wire

/-! ### Layouts of the input -/

/-- The byte string is a layout of a request. -/
def CodeRequest.IsLayout (request : CodeRequest) (bytes : Bytes) : Prop :=
  ∃ fields, Carries (inputShapes "RawCodeGeneratorRequest") fields bytes ∧
    fields.texts 1 = request.files ∧ fields.text? 2 = request.parameter ∧
      fields.byteStrings 15 = request.schemas

/-- The byte string is a layout of a set of schema files. -/
def IsSetLayout (schemas : List Bytes) (bytes : Bytes) : Prop :=
  ∃ fields, Carries (inputShapes "RawFileDescriptorSet") fields bytes ∧
    fields.byteStrings 1 = schemas

theorem CodeRequest.decode_of_isLayout {request : CodeRequest} {bytes : Bytes}
    (h : request.IsLayout bytes) : decode bytes = .ok request := by
  obtain ⟨fields, hfields, hfiles, hparameter, hschemas⟩ := h
  rw [decode, hfields.decode_eq]
  simp only [hfiles, hparameter, hschemas]

theorem decodeDescriptorSet_of_isLayout {schemas : List Bytes} {bytes : Bytes}
    (h : IsSetLayout schemas bytes) : decodeDescriptorSet bytes = .ok schemas := by
  obtain ⟨fields, hfields, hschemas⟩ := h
  rw [decodeDescriptorSet, hfields.decode_eq]
  simp only [hschemas]

/-! ### The common steps -/

/-- Generates the files of encoded schemas that are picked by their names once the pool is loaded. -/
def generateSchemas (schemas : List Bytes) (parameter : Option String)
    (names : Pool → List String) : Except Error Output := do
  let options ← Options.ofParameter (parameter.getD "")
  let pool ← Pool.load schemas
  pool.generate options (names pool)

theorem generateRequest_of_isLayout {request : CodeRequest} {bytes : Bytes}
    (h : request.IsLayout bytes) :
    generateRequest bytes =
      generateSchemas request.schemas request.parameter fun _ => request.files := by
  rw [generateRequest, CodeRequest.decode_of_isLayout h]
  rfl

theorem generateDescriptorSet_of_isLayout {schemas : List Bytes} {bytes : Bytes}
    (h : IsSetLayout schemas bytes) (names : List String) (parameter : Option String) :
    generateDescriptorSet bytes names parameter =
      generateSchemas schemas parameter fun pool =>
        if names.isEmpty then pool.files.map (·.name) else names := by
  rw [generateDescriptorSet, decodeDescriptorSet_of_isLayout h]
  rfl

theorem generateDescriptorSet_of_ne_nil {schemas : List Bytes} {bytes : Bytes}
    (h : IsSetLayout schemas bytes) {names : List String} (some_name : names ≠ [])
    (parameter : Option String) :
    generateDescriptorSet bytes names parameter =
      generateSchemas schemas parameter fun _ => names := by
  cases names with
  | nil => exact absurd rfl some_name
  | cons name names => exact generateDescriptorSet_of_isLayout h _ parameter

section

variable {schemas : List Bytes} {parameter : Option String}

theorem generateSchemas_of_ok {options : Options} {pool : Pool}
    (hoptions : Options.ofParameter (parameter.getD "") = .ok options)
    (hpool : Pool.load schemas = .ok pool) (names : Pool → List String) :
    generateSchemas schemas parameter names = pool.generate options (names pool) := by
  rw [generateSchemas, hoptions, hpool]
  rfl

/-- Only the names that are picked from the loaded pool count. -/
theorem generateSchemas_congr {names names' : Pool → List String}
    (h : ∀ pool, Pool.load schemas = .ok pool → names pool = names' pool) :
    generateSchemas schemas parameter names = generateSchemas schemas parameter names' := by
  -- A parameter or a schema file that is refused ends the run before any name counts.
  cases hoptions : Options.ofParameter (parameter.getD "") with
  | error e => rw [generateSchemas, generateSchemas, hoptions]; rfl
  | ok options =>
    cases hpool : Pool.load schemas with
    | error e => rw [generateSchemas, generateSchemas, hoptions, hpool]; rfl
    | ok pool =>
      rw [generateSchemas_of_ok hoptions hpool, generateSchemas_of_ok hoptions hpool, h pool hpool]

/-- A run over two lists of names is one run after the other: what ends a run before its first file
ends both. -/
theorem generateSchemas_append (names names' : List String) :
    (generateSchemas schemas parameter fun _ => names ++ names') = do
      let first ← generateSchemas schemas parameter fun _ => names
      let rest ← generateSchemas schemas parameter fun _ => names'
      return first ++ rest := by
  cases hoptions : Options.ofParameter (parameter.getD "") with
  | error e => simp only [generateSchemas, hoptions]; rfl
  | ok options =>
    cases hpool : Pool.load schemas with
    | error e => simp only [generateSchemas, hoptions, hpool]; rfl
    | ok pool =>
      simp only [generateSchemas_of_ok hoptions hpool]
      exact pool.generate_append options names names'

end

/-! ### All files of a pool -/

/-- Files of a pool generate the same output under their names and with their options. -/
theorem Pool.mapM_generateNamed {p : Pool} (hp : p.HasDistinctNames) (defaults : Options)
    {files : List Descriptor.File} (hfiles : ∀ f ∈ files, f ∈ p.files) :
    (files.map (·.name)).mapM (p.generateNamed defaults) =
      (files.map fun f => (f, defaults.forFile p f)).mapM fun f =>
        generateFile (p.table defaults) none f.1 f.2 := by
  induction files with
  | nil => rfl
  | cons f files ih =>
    rw [List.forall_mem_cons] at hfiles
    have first : p.generateNamed defaults f.name =
        generateFile (p.table defaults) none f (defaults.forFile p f) := by
      rw [generateNamed_eq, file?_of_mem hp hfiles.1]
    rw [List.map_cons, List.map_cons, List.mapM_cons, List.mapM_cons, first, ih hfiles.2]

/-- All names of a pool generate what its files generate. -/
theorem Pool.generate_all {p : Pool} (hp : p.HasDistinctNames) (defaults : Options) :
    p.generate defaults (p.files.map (·.name)) =
      ProtoPhp.generate none (p.withOptions defaults) := by
  rw [generate, mapM_generateNamed hp defaults fun _ hf => hf]
  rfl

/-! ### The ways in -/

/-- A request and a set of the same schema files give the same for the same names.  Without names a
request gives nothing, while a set gives all files of the pool, and a run over a set can be cut
between any two names. -/
theorem entryPoints_agree {request : CodeRequest} {bytes set : Bytes}
    (hbytes : request.IsLayout bytes) (hset : IsSetLayout request.schemas set) :
    (request.files ≠ [] →
      generateRequest bytes = generateDescriptorSet set request.files request.parameter) ∧
    (request.files = [] →
      generateRequest bytes = do
        let _ ← Options.ofParameter (request.parameter.getD "")
        let _ ← Pool.load request.schemas
        return {}) ∧
    (∀ pool, Pool.load request.schemas = .ok pool →
      generateDescriptorSet set [] request.parameter =
        generateDescriptorSet set (pool.files.map (·.name)) request.parameter ∧
      ∀ options, Options.ofParameter (request.parameter.getD "") = .ok options →
        generateDescriptorSet set [] request.parameter =
          generate none (pool.withOptions options)) ∧
    ∀ names names', names ≠ [] → names' ≠ [] →
      generateDescriptorSet set (names ++ names') request.parameter = do
        let first ← generateDescriptorSet set names request.parameter
        let rest ← generateDescriptorSet set names' request.parameter
        return first ++ rest := by
  refine ⟨?_, ?_, ?_, ?_⟩
  · intro some_file
    rw [generateRequest_of_isLayout hbytes, generateDescriptorSet_of_ne_nil hset some_file]
  · intro no_file
    rw [generateRequest_of_isLayout hbytes, no_file]
    rfl
  · intro pool hpool
    constructor
    · rw [generateDescriptorSet_of_isLayout hset, generateDescriptorSet_of_isLayout hset]
      refine generateSchemas_congr ?_
      intro loaded hloaded
      -- Both runs load the same pool; if it is empty, so is the list of its names.
      rw [hpool] at hloaded
      cases hloaded
      show pool.files.map (·.name) = if (pool.files.map (·.name)).isEmpty then _ else _
      rw [ite_self]
    · intro options hoptions
      rw [generateDescriptorSet_of_isLayout hset, generateSchemas_of_ok hoptions hpool]
      exact Pool.generate_all (Pool.nodup_names_of_load hpool) options
  · intro names names' some_name some_name'
    rw [generateDescriptorSet_of_ne_nil hset (List.append_ne_nil_of_left_ne_nil some_name names'),
      generateDescriptorSet_of_ne_nil hset some_name,
      generateDescriptorSet_of_ne_nil hset some_name']
    exact generateSchemas_append names names'

/-- A request with two parameters, a length in two bytes where one is enough, and an unknown group
between its fields.  Its schema file is in the set twice. -/
theorem entryPoints_agree_unknown_group :
    let schema : Bytes := [0x0a] ++ ([7] ++ (encodeText "a.proto" ++ []))
    let request : CodeRequest := ⟨["a.proto"], some "multifile", [schema, schema]⟩
    let group : Bytes := [0x23] ++ (([0x08] ++ ([5] ++ [])) ++ ([0x24] ++ []))
    let bytes : Bytes :=
      [0x12] ++ ([1] ++ (encodeText "," ++
      ([0x7a] ++ ([0x89, 0x00] ++ (schema ++
      (group ++
      ([0x0a] ++ ([7] ++ (encodeText "a.proto" ++
      ([0x7a] ++ ([9] ++ (schema ++
      ([0x12] ++ ([9] ++ (encodeText "multifile" ++ [])))))))))))))))
    let set : Bytes := [0x0a] ++ ([9] ++ (schema ++ ([0x0a] ++ ([9] ++ (schema ++ [])))))
    request.IsLayout bytes ∧ IsSetLayout request.schemas set ∧
      generateRequest bytes = generateDescriptorSet set ["a.proto"] (some "multifile") ∧
      ∃ pool, Pool.load request.schemas = .ok pool ∧ pool.files.length = 1 ∧
        generateDescriptorSet set [] (some "multifile") =
          generate none (pool.withOptions { multifile := true }) := by
  intro schema request group bytes set
  have key1 : IsKey ⟨1, .lengthDelimited⟩ [0x0a] :=
    ⟨by decide, by decide, .last 0x0a (by decide) nofun⟩
  have key2 : IsKey ⟨2, .lengthDelimited⟩ [0x12] :=
    ⟨by decide, by decide, .last 0x12 (by decide) nofun⟩
  have key15 : IsKey ⟨15, .lengthDelimited⟩ [0x7a] :=
    ⟨by decide, by decide, .last 0x7a (by decide) nofun⟩
  have start4 : IsKey ⟨4, .startGroup⟩ [0x23] :=
    ⟨by decide, by decide, .last 0x23 (by decide) nofun⟩
  have stop4 : IsKey ⟨4, .endGroup⟩ [0x24] :=
    ⟨by decide, by decide, .last 0x24 (by decide) nofun⟩
  have number1 : IsKey ⟨1, .varint⟩ [0x08] :=
    ⟨by decide, by decide, .last 0x08 (by decide) nofun⟩
  have one : IsVarint 10 1 [1] := .last 1 (by decide) nofun
  have seven : IsVarint 10 7 [7] := .last 7 (by decide) nofun
  have nine : IsVarint 10 9 [9] := .last 9 (by decide) nofun
  have long : IsVarint 10 9 [0x89, 0x00] := by
    have zero : IsVarint 9 0 [0x00] := .last 0x00 (by decide) nofun
    exact .more 0x89 (by decide) zero
  have hgroup : Records maxDepth [4] group := by
    have inner : Records 99 [1] ([0x08] ++ ([5] ++ [])) :=
      .scalar number1 (.varint (.last 5 (by decide) nofun)) .nil
    exact .group start4 inner stop4 .nil
  have hbytes : request.IsLayout bytes :=
    ⟨[(2, .text ","), (15, .bytes schema), (1, .text "a.proto"), (15, .bytes schema),
      (2, .text "multifile")],
      .known rfl (.text ",") key2 one <| .known rfl (.bytes schema) key15 long <|
        .unknown hgroup (by decide) <| .known rfl (.text "a.proto") key1 seven <|
        .known rfl (.bytes schema) key15 nine <| .known rfl (.text "multifile") key2 nine .nil,
      rfl, rfl, rfl⟩
  have hset : IsSetLayout request.schemas set :=
    ⟨[(1, .bytes schema), (1, .bytes schema)],
      .known rfl (.bytes schema) key1 nine <| .known rfl (.bytes schema) key1 nine .nil, rfl⟩
  have hschema : Descriptor.File.decode? schema =
      some (Descriptor.File.ofFields [(1, .text "a.proto")]) := by
    have hcarries : Carries (Descriptor.standardShapes "google.protobuf.FileDescriptorProto")
        [(1, .text "a.proto")] schema :=
      .known rfl (.text "a.proto") key1 seven .nil
    rw [Descriptor.File.decode?, hcarries.decode_eq]
    rfl
  obtain ⟨pool, hpool, hlength⟩ : ∃ pool, Pool.load request.schemas = .ok pool ∧
      pool.files.length = 1 := by
    simp only [request, Pool.load, List.foldlM_cons, Pool.addEncoded, hschema]
    exact ⟨_, rfl, rfl⟩
  have hoptions : Options.ofParameter "multifile" = .ok { multifile := true } := by decide
  obtain ⟨hagree, -, hall, -⟩ := entryPoints_agree hbytes hset
  exact ⟨hbytes, hset, hagree (by decide), pool, hpool, hlength, (hall pool hpool).2 _ hoptions⟩

end ProtoPhp
