/-
Custom options of the files of a pool.

A custom option is known through the definitions of the pool, and its value
stands in the options of the file alone.  So the options of other files do not
count.  Of several records of an option in one file the last one does.

* `Pool.DiffersInOptions` — two pools that differ in the options of their files only;
* `Pool.DiffersInOptions.option?_eq` — a file has the same custom options in both;
* `Pool.WritesOptions` — a file writes values of custom options record by record;
* `Pool.KnowsOption.option?_eq_lastValue` — the file has the last of these values.
-/
import ProtoPhp.Pool.CustomOption
import ProtoPhp.Proofs.Typed.Reading

namespace ProtoPhp

open Descriptor Wire

namespace Typed.Scalar

/-- The text that a value is. -/
def text? : Scalar → Option String
  | .text value => some value
  | _ => none

/-- The truth value that a value is. -/
def bool? : Scalar → Option Bool
  | .bool value => some value
  | _ => none

end Typed.Scalar

/-- A file without what its options say. -/
def Descriptor.File.withoutOptions (f : File) : File := { f with phpNamespace := none, options := [] }

namespace Pool

/-- The files of two pools differ in their options only, and the names in both stand for the same. -/
structure DiffersInOptions (p q : Pool) : Prop where
  definitions : q.definitions = p.definitions
  files : q.files.map File.withoutOptions = p.files.map File.withoutOptions

theorem map_withoutOptions_file? (p : Pool) (name : String) :
    (p.file? name).map File.withoutOptions =
      (p.files.map File.withoutOptions).find? (·.name == name) := by
  rw [file?, List.find?_map]
  rfl

namespace DiffersInOptions

variable {p q : Pool} (h : p.DiffersInOptions q)

include h

theorem find?_eq (name : String) : q.find? name = p.find? name := by
  rw [find?, h.definitions, find?]

theorem message?_eq (name : String) : q.message? name = p.message? name := by
  rw [message?, h.find?_eq, message?]

theorem isProto3_eq (file : String) : q.isProto3 file = p.isProto3 file := by
  -- The mark of a file is none of its options.
  have hmark : ∀ r : Pool, r.isProto3 file =
      ((r.file? file).map File.withoutOptions).any (·.proto3) := by
    intro r
    rw [Option.any_map]
    rfl
  rw [hmark, hmark, map_withoutOptions_file?, map_withoutOptions_file?, h.files]

theorem ofExtension_eq (file : String) (f : Field) : q.ofExtension file f = p.ofExtension file f := by
  simp only [ofExtension, typeOf, isMapEntry, defaultOf, isPacked, h.find?_eq, h.message?_eq,
    h.isProto3_eq]

theorem ownField?_eq (type : String) (test : Field → Bool) :
    q.ownField? type test = p.ownField? type test := by
  simp only [ownField?, ofField, typeOf, h.find?_eq, h.message?_eq, h.isProto3_eq, h.ofExtension_eq]

/-- Both pools know messages by the same schema. -/
theorem schema_eq : q.schema = p.schema := by
  have hextension : ∀ type number, q.extensionOf? type number = p.extensionOf? type number := by
    intro type number
    simp only [extensionOf?, h.definitions, h.ofExtension_eq]
  have henum : q.enumNumber? = p.enumNumber? := by
    funext enum value
    rw [enumNumber?, h.find?_eq, enumNumber?]
  simp only [schema, h.ownField?_eq, hextension, henum]

theorem schemaOf_eq (type : String) : q.schemaOf type = p.schemaOf type := by
  rw [schemaOf, schemaOf, h.message?_eq, h.schema_eq]

/-- A file has the same custom options in both pools. -/
theorem option?_eq (f : File) (name : String) : q.option? f name = p.option? f name := by
  simp only [option?, h.find?_eq, h.schemaOf_eq]

theorem textOption?_eq (f : File) (name : String) : q.textOption? f name = p.textOption? f name := by
  rw [textOption?, h.option?_eq, textOption?]

theorem boolOption?_eq (f : File) (name : String) : q.boolOption? f name = p.boolOption? f name := by
  rw [boolOption?, h.option?_eq, boolOption?]

end DiffersInOptions

/-- A file has no value for a custom option that the pool does not know. -/
theorem option?_eq_none {p : Pool} {name : String}
    (h : (p.find? name).bind Definition.extension? = none) (f : File) : p.option? f name = none := by
  cases hd : p.find? name with
  | none => simp only [option?, hd, Option.bind_eq_bind, Option.bind_none]
  | some d =>
    rw [hd, Option.bind_some] at h
    simp only [option?, hd, h, Option.bind_eq_bind, Option.bind_some, Option.bind_none]

/-- The pool knows an option of files by its full name, and the option is a field with one value. -/
structure KnowsOption (p : Pool) (name : String) (option : Typed.Field) : Prop where
  named : ((p.find? name).bind Definition.extension?).map (·.number.toNat) = some option.number
  field : (p.schemaOf "google.protobuf.FileOptions").field? "google.protobuf.FileOptions"
    option.number = some option
  single : option.IsSingle
  positive : 0 < option.number
  small : option.number < 2 ^ 29

instance (p : Pool) (name : String) (option : Typed.Field) :
    Decidable (p.KnowsOption name option) :=
  decidable_of_iff
    (((p.find? name).bind Definition.extension?).map (·.number.toNat) = some option.number ∧
      (p.schemaOf "google.protobuf.FileOptions").field? "google.protobuf.FileOptions"
        option.number = some option ∧
      option.IsSingle ∧ 0 < option.number ∧ option.number < 2 ^ 29)
    ⟨fun ⟨a, b, c, d, e⟩ => ⟨a, b, c, d, e⟩, fun ⟨a, b, c, d, e⟩ => ⟨a, b, c, d, e⟩⟩

/-- A record of an option of files, and the number with the value that it sets. -/
def SetsOption (p : Pool) : Nat × Payload → Nat × Typed.Scalar → Prop :=
  Typed.Sets (p.schemaOf "google.protobuf.FileOptions") "google.protobuf.FileOptions"

/-- The options of a file write values of custom options, record by record. -/
def WritesOptions (p : Pool) (f : File) (values : List (Nat × Typed.Scalar)) : Prop :=
  ∃ records, f.options = writeRecords records ∧ List.Forall₂ p.SetsOption records values ∧
    ∀ r ∈ records, r.2.leading < 2 ^ 64

namespace KnowsOption

variable {p : Pool} {name : String} {option : Typed.Field} (h : p.KnowsOption name option)

include h

/-- A record with a written value sets the option to this value. -/
theorem setsOption {payload : Payload} {value : Typed.Scalar} (range : value.InRange)
    (hwritten : value.toPayload? option.type = some payload) :
    p.SetsOption (option.number, payload) (option.number, value) :=
  .single h.field h.single h.positive h.small (Typed.Scalar.hasType_of_toPayload? hwritten)
    (Typed.Scalar.ofPayload?_of_toPayload? range hwritten)

/-- A file has the last value that its options write for a custom option. -/
theorem option?_eq_lastValue {f : File} {values : List (Nat × Typed.Scalar)}
    (hvalues : p.WritesOptions f values) :
    p.option? f name = Typed.lastValue values option.number := by
  obtain ⟨records, hoptions, hrecords, fits⟩ := hvalues
  obtain ⟨m, hread, hget⟩ := Typed.decode_singles hrecords fits
  obtain ⟨extension, hextension, hnumber⟩ := Option.map_eq_some_iff.mp h.named
  obtain ⟨d, hd, hd'⟩ := Option.bind_eq_some_iff.mp hextension
  simp only [option?, hoptions, hd, hd', hread, Option.bind_eq_bind, Option.bind_some,
    Except.toOption, hnumber, hget]
  cases Typed.lastValue values option.number <;> rfl

theorem textOption?_eq {f : File} {values : List (Nat × Typed.Scalar)}
    (hvalues : p.WritesOptions f values) :
    p.textOption? f name = (Typed.lastValue values option.number).bind Typed.Scalar.text? := by
  rw [textOption?, h.option?_eq_lastValue hvalues]
  rcases Typed.lastValue values option.number with _ | (_ | _ | _ | _ | _ | _ | _) <;> rfl

theorem boolOption?_eq {f : File} {values : List (Nat × Typed.Scalar)}
    (hvalues : p.WritesOptions f values) :
    p.boolOption? f name = (Typed.lastValue values option.number).bind Typed.Scalar.bool? := by
  rw [boolOption?, h.option?_eq_lastValue hvalues]
  rcases Typed.lastValue values option.number with _ | (_ | _ | _ | _ | _ | _ | _) <;> rfl

end KnowsOption

end Pool

end ProtoPhp
