/-
Texts as bytes.

* `Wire.decodeText_encodeText` — a text reads back from its bytes.
-/
import ProtoPhp.Wire.Varint

namespace ProtoPhp.Wire

/-- The text that a byte string encodes, if it is UTF-8. -/
def decodeText (bytes : Bytes) : Option String := String.fromUTF8? ⟨bytes.toArray⟩

/-- The UTF-8 bytes of a text. -/
def encodeText (text : String) : Bytes := text.toByteArray.data.toList

/-- A text reads back from its bytes. -/
@[simp] theorem decodeText_encodeText (text : String) :
    decodeText (encodeText text) = some text := by
  -- The bytes of a text are valid UTF-8 by construction.
  have h : (⟨(encodeText text).toArray⟩ : ByteArray) = text.toByteArray := by
    simp [encodeText]
  rw [decodeText, h, String.fromUTF8?, dif_pos text.isValidUTF8]
  rfl

end ProtoPhp.Wire
