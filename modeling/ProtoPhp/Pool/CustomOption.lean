/-
Custom options.

A custom option of a file is the value that its options hold for the number of
an extension, which is given by its full name.

* `Pool.textOption?`, `Pool.boolOption?` — the value of a single custom option of a type.
-/
import ProtoPhp.Pool.Schema
import ProtoPhp.Typed.Reading

namespace ProtoPhp.Pool

/-- The value of a single custom option of a file. -/
def option? (p : Pool) (f : Descriptor.File) (name : String) : Option Typed.Scalar := do
  let type := "google.protobuf.FileOptions"
  let number := (← (← p.find? name).extension?).number.toNat
  let m ← (Typed.decode (p.schemaOf type) type f.options).toOption
  match m.get? number with
  | some (.scalar value) => some value
  | _ => none

/-- The text of a custom option. -/
def textOption? (p : Pool) (f : Descriptor.File) (name : String) : Option String :=
  match p.option? f name with
  | some (.text text) => some text
  | _ => none

/-- The truth value of a custom option. -/
def boolOption? (p : Pool) (f : Descriptor.File) (name : String) : Option Bool :=
  match p.option? f name with
  | some (.bool value) => some value
  | _ => none

end ProtoPhp.Pool
