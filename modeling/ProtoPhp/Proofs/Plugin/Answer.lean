/-
The answer carries the result of a run.

What a schema compiler gets is said here by readers that know nothing of a run:
an answer is received as the fields that are there, each of them or none.  The
decoder of the library reads every answer of less than 2 ^ 64 bytes, and a reader
without bounds reads them all.

* `Received.read`, `Received.readWide` — the two readers;
* `Received.read_encode`, `Received.readWide_encode` — what they find in an encoded answer;
* `answer_reports_run` — the program answers every request by the result of its run.
-/
import ProtoPhp.Command.Run
import ProtoPhp.Proofs.Wire.Written

namespace ProtoPhp

open Wire

/-- The fields of an answer and of its files. -/
def answerShapes : Shapes
  | "CodeGeneratorResponse", 1 => some { name := "CodeGeneratorResponse.error", kind := .text }
  | "CodeGeneratorResponse", 2 =>
    some { name := "CodeGeneratorResponse.supported_features", kind := .varint }
  | "CodeGeneratorResponse", 15 =>
    some { name := "CodeGeneratorResponse.file", kind := .message "File", repeated := true }
  | "File", 1 => some { name := "File.name", kind := .text }
  | "File", 15 => some { name := "File.content", kind := .text }
  | _, _ => none

/-- A file of a received answer. -/
structure ReceivedFile where
  name : Option String
  content : Option String
  deriving Repr, DecidableEq, Inhabited

/-- A received answer.  A field that is not there is `none`, and so apart from an empty one. -/
structure Received where
  error : Option String
  supportedFeatures : Option Nat
  files : List ReceivedFile
  deriving Repr, DecidableEq, Inhabited

namespace Received

/-- The answer with the given fields. -/
def ofFields (fields : Fields) : Received where
  error := fields.text? 1
  supportedFeatures := fields.number? 2
  files := (fields.messages 15).map fun file => ⟨file.text? 1, file.text? 15⟩

/-- Reads an encoded answer. -/
def read (bytes : Bytes) : Except DecodeError Received :=
  ofFields <$> decode answerShapes maxDepth "CodeGeneratorResponse" bytes

/-- Reads an encoded answer whose lengths may be of any size. -/
def readWide (bytes : Bytes) : Except DecodeError Received :=
  ofFields <$> decodeWide answerShapes maxDepth "CodeGeneratorResponse" bytes

/-- An answer as it is received: with the same fields, and all fields of its files. -/
def ofResponse (r : Response) : Received where
  error := r.error
  supportedFeatures := r.supportedFeatures
  files := r.files.map fun f => ⟨some f.name, some f.content⟩

/-- A received answer reports the result of a run: the text of its error and nothing else, or no
error and its files one for one. -/
def Reports (r : Received) : Except Error Output → Prop
  | .error e => r.error = some e.message ∧ r.supportedFeatures = none ∧ r.files = []
  | .ok output =>
    r.error = none ∧ r.supportedFeatures = some Response.proto3Optional ∧
      r.files = output.files.map fun f => ⟨some f.name, some f.content⟩

end Received

/-! ### The records of an answer -/

namespace Response

/-- The records of a generated file. -/
def fileRecords (f : GeneratedFile) : List (Nat × Payload) :=
  [(1, .bytes (encodeText f.name)), (15, .bytes (encodeText f.content))]

/-- The fields that are found in a generated file. -/
def fileFields (f : GeneratedFile) : Fields := [(1, .text f.name), (15, .text f.content)]

/-- The records of an answer. -/
def records (r : Response) : List (Nat × Payload) :=
  (r.error.elim [] fun text => [(1, .bytes (encodeText text))]) ++
    (r.supportedFeatures.elim [] fun features => [(2, .varint features)]) ++
    r.files.map fun f => (15, .bytes (encodeFile f))

/-- The fields that are found in an answer. -/
def fields (r : Response) : Fields :=
  (r.error.elim [] fun text => [(1, .text text)]) ++
    (r.supportedFeatures.elim [] fun features => [(2, .varint features)]) ++
    r.files.map fun f => (15, .message (fileFields f))

theorem encodeFile_eq (f : GeneratedFile) : encodeFile f = writeRecords (fileRecords f) := by
  simp [encodeFile, writeRecords, fileRecords]

theorem encode_eq (r : Response) : r.encode = writeRecords r.records := by
  obtain ⟨error, features, files⟩ := r
  cases error <;> cases features <;> simp [encode, writeRecords, records, List.flatMap_map]

theorem varint_mem_records {r : Response} {number n : Nat} :
    (number, .varint n) ∈ r.records ↔ number = 2 ∧ r.supportedFeatures = some n := by
  obtain ⟨error, features, files⟩ := r
  cases error <;> cases features <;> simp [records, eq_comm]

variable {inner : String → Bytes → Except DecodeError Fields}

theorem holds_text {type name text : String} {number : Nat} (positive : 0 < number)
    (small : number < 2 ^ 29)
    (hshape : answerShapes type number = some { name := name, kind := .text }) :
    Holds (answerShapes type) inner (number, .bytes (encodeText text)) (number, .text text) :=
  .known positive small hshape (.bytes _) (by simp [FieldShape.values])

/-- The records of a generated file hold its name and its content. -/
theorem holds_fileRecords (f : GeneratedFile) :
    List.Forall₂ (Holds (answerShapes "File") inner) (fileRecords f) (fileFields f) :=
  .cons (holds_text (by decide) (by decide) rfl)
    (.cons (holds_text (by decide) (by decide) rfl) .nil)

/-- The records of an answer hold its fields, if its files can be read. -/
theorem holds_records (r : Response)
    (hinner : ∀ f ∈ r.files, inner "File" (encodeFile f) = .ok (fileFields f)) :
    List.Forall₂ (Holds (answerShapes "CodeGeneratorResponse") inner) r.records r.fields := by
  have herror : List.Forall₂ (Holds (answerShapes "CodeGeneratorResponse") inner)
      (r.error.elim [] fun text => [(1, .bytes (encodeText text))])
      (r.error.elim [] fun text => [(1, .text text)]) := by
    cases r.error with
    | none => exact .nil
    | some text => exact .cons (holds_text (by decide) (by decide) rfl) .nil
  have hfeatures : List.Forall₂ (Holds (answerShapes "CodeGeneratorResponse") inner)
      (r.supportedFeatures.elim [] fun features => [(2, .varint features)])
      (r.supportedFeatures.elim [] fun features => [(2, .varint features)]) := by
    cases r.supportedFeatures with
    | none => exact .nil
    | some features => exact .cons (.known (by decide) (by decide) rfl (.varint _) rfl) .nil
  have hfiles : List.Forall₂ (Holds (answerShapes "CodeGeneratorResponse") inner)
      (r.files.map fun f => (15, .bytes (encodeFile f)))
      (r.files.map fun f => (15, .message (fileFields f))) := by
    rw [List.forall₂_map_left_iff, List.forall₂_map_right_iff, List.forall₂_same]
    intro f hf
    refine .known (by decide) (by decide) rfl (.bytes _) ?_
    simp only [FieldShape.values, hinner f hf]
    rfl
  exact List.rel_append (List.rel_append herror hfeatures) hfiles

end Response

/-! ### What is received -/

namespace Received

open Response

variable (r : Response)

theorem texts_fields : r.fields.texts 1 = r.error.toList := by
  obtain ⟨error, features, files⟩ := r
  cases error <;> cases features <;> simp [Response.fields, Fields.texts, Fields.values]

theorem numbers_fields : r.fields.numbers 2 = r.supportedFeatures.toList := by
  obtain ⟨error, features, files⟩ := r
  cases error <;> cases features <;> simp [Response.fields, Fields.numbers, Fields.values]

theorem messages_fields : r.fields.messages 15 = r.files.map fileFields := by
  obtain ⟨error, features, files⟩ := r
  cases error <;> cases features <;>
    simp [Response.fields, Fields.messages, Fields.values, List.filter_map, List.filterMap_map,
      Function.comp_def]

/-- The fields of an answer are received as they are. -/
theorem ofFields_fields : ofFields r.fields = ofResponse r := by
  rw [ofFields, ofResponse, Fields.text?, Fields.number?, texts_fields, numbers_fields,
    messages_fields, List.map_map]
  cases r.error <;> cases r.supportedFeatures <;> rfl

/-- Every encoded answer is read by the reader without bounds. -/
theorem readWide_encode : readWide r.encode = .ok (ofResponse r) := by
  have hfile (f : GeneratedFile) :
      decodeWide answerShapes 99 "File" (encodeFile f) = .ok (fileFields f) := by
    rw [encodeFile_eq]
    exact decodeWide_writeRecords (holds_fileRecords f)
  have hdecode : decodeWide answerShapes maxDepth "CodeGeneratorResponse" r.encode =
      .ok r.fields := by
    rw [encode_eq]
    exact decodeWide_writeRecords (r.holds_records fun f _ => hfile f)
  rw [readWide, hdecode, ← ofFields_fields]
  rfl

/-- An encoded answer is read by the decoder, as long as its numbers have 64 bits. -/
theorem read_encode (hfeatures : ∀ n, r.supportedFeatures = some n → n < 2 ^ 64)
    (hlength : r.encode.length < 2 ^ 64) : read r.encode = .ok (ofResponse r) := by
  rw [encode_eq] at hlength
  have hfits := leading_lt_of_length_lt hlength (by
    rintro ⟨number, _⟩ hr n rfl
    exact hfeatures n (varint_mem_records.mp hr).2)
  have hfile : ∀ f ∈ r.files,
      decode answerShapes 99 "File" (encodeFile f) = .ok (fileFields f) := by
    intro f hf
    have hshort : (encodeFile f).length < 2 ^ 64 :=
      hfits (15, .bytes (encodeFile f)) (List.mem_append_right _ (List.mem_map_of_mem hf))
    rw [encodeFile_eq] at hshort ⊢
    exact decode_writeRecords (holds_fileRecords f)
      (leading_lt_of_length_lt hshort (by simp [fileRecords]))
  have hdecode : decode answerShapes maxDepth "CodeGeneratorResponse" r.encode = .ok r.fields := by
    rw [encode_eq]
    exact decode_writeRecords (r.holds_records hfile) hfits
  rw [read, hdecode, ← ofFields_fields]
  rfl

end Received

/-- Without arguments the program answers a request, whatever bytes it is.  The answer is received as
a report of the run: by the reader without bounds always, and by the decoder as long as the lengths
in it have 64 bits.  What the run warns about is no part of the answer. -/
theorem answer_reports_run (stdin : Bytes) (t : Command.FileTree) :
    ∃ (bytes : Bytes) (received : Received),
      Command.run [] stdin t = (.success bytes, t) ∧
      Received.readWide bytes = .ok received ∧
      (bytes.length < 2 ^ 64 → Received.read bytes = .ok received) ∧
      received.Reports (generateRequest stdin) ∧
      ∀ warnings, (Response.ofRun ((fun output => { output with warnings }) <$>
        generateRequest stdin)).encode = bytes := by
  refine ⟨Command.answer stdin, .ofResponse (.ofRun (generateRequest stdin)), rfl,
    Received.readWide_encode _, Received.read_encode _ ?_, ?_, ?_⟩
  · intro n hn
    cases hrun : generateRequest stdin with
    | error e => simp [hrun, Response.ofRun] at hn
    | ok output =>
      rw [hrun] at hn
      cases hn
      decide
  · cases generateRequest stdin with
    | error e => exact ⟨rfl, rfl, rfl⟩
    | ok output => exact ⟨rfl, rfl, rfl⟩
  · intro warnings
    rw [Command.answer]
    cases generateRequest stdin <;> rfl

end ProtoPhp
