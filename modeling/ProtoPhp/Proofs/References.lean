/-
The references of a schema file.

A file refers to types by the fields of its messages and by its extensions.
The references stand in the order in which they are looked up: first those of
the fields, each message before the messages inside it; then, for each extended
message, its own name and the references of its extensions.

* `Descriptor.File.references` — the references of a file, in order;
* `Descriptor.File.mem_references` — what they are, without the order.
-/
import ProtoPhp.Descriptor.Basic

namespace ProtoPhp.Descriptor

/-- The reference of a field whose type is looked up.  A group may come without one. -/
def Field.reference? (f : Field) : Option String :=
  match f.type with
  | .message | .enum => some (f.typeName.getD "")
  | .group => f.typeName
  | _ => none

/-- The name of the message that an extension extends. -/
def Field.extendeeName (f : Field) : String := f.extendee.getD ""

mutual

/-- The fields of a message, then those of the messages inside it. -/
def Message.allFields : Message → List Field
  | { fields, messages, .. } => fields ++ fieldsOf messages

/-- The fields of a list of messages. -/
def fieldsOf : List Message → List Field
  | [] => []
  | m :: ms => m.allFields ++ fieldsOf ms

end

mutual

/-- The extensions that the messages inside a message declare, then its own. -/
def Message.allExtensions : Message → List Field
  | { messages, extensions, .. } => extensionsOf messages ++ extensions

/-- The extensions that a list of messages declares. -/
def extensionsOf : List Message → List Field
  | [] => []
  | m :: ms => m.allExtensions ++ extensionsOf ms

end

namespace File

/-- The fields of all messages of a file. -/
def allFields (file : File) : List Field := fieldsOf file.messages

/-- The extensions that a file declares; those outside of messages come last. -/
def allExtensions (file : File) : List Field := extensionsOf file.messages ++ file.extensions

/-- The messages that a file extends, in the order in which they are first named. -/
def extendees (file : File) : List String :=
  (file.allExtensions.map Field.extendeeName).eraseDups

/-- The extensions of one message. -/
def extensionsOn (file : File) (extendee : String) : List Field :=
  file.allExtensions.filter fun f => f.extendeeName == extendee

/-- The references of a file in the order in which they are looked up. -/
def references (file : File) : List String :=
  file.allFields.filterMap Field.reference? ++
    file.extendees.flatMap fun extendee =>
      extendee :: (file.extensionsOn extendee).filterMap Field.reference?

/-- The references of a file are those of its fields and extensions, and the extended messages. -/
theorem mem_references {file : File} {reference : String} :
    reference ∈ file.references ↔
      (∃ f ∈ file.allFields ++ file.allExtensions, f.reference? = some reference) ∨
        ∃ f ∈ file.allExtensions, f.extendeeName = reference := by
  simp only [references, List.mem_append, List.mem_filterMap, List.mem_flatMap, List.mem_cons,
    extendees, extensionsOn, List.mem_eraseDups, List.mem_map, List.mem_filter, beq_iff_eq]
  constructor
  · rintro (⟨f, hf, hr⟩ | ⟨x, ⟨e, he, rfl⟩, rfl | ⟨f, ⟨hf, -⟩, hr⟩⟩)
    · exact .inl ⟨f, .inl hf, hr⟩
    · exact .inr ⟨e, he, rfl⟩
    · exact .inl ⟨f, .inr hf, hr⟩
  · rintro (⟨f, hf | hf, hr⟩ | ⟨f, hf, rfl⟩)
    · exact .inl ⟨f, hf, hr⟩
    · exact .inr ⟨f.extendeeName, ⟨f, hf, rfl⟩, .inr ⟨f, ⟨hf, rfl⟩, hr⟩⟩
    · exact .inr ⟨f.extendeeName, ⟨f, hf, rfl⟩, .inl rfl⟩

end File

end ProtoPhp.Descriptor
