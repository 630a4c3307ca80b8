import SortKey.Bytes

namespace SortKey
namespace Text
namespace Utf8

/-!
# UTF-8

The strict form of text.  It has one spelling for each text, so reading and
writing undo each other.
-/

/-- The octets of a text. -/
def encode (text : String) : Bytes :=
  text.toByteArray.data.toList

/-- The text that has exactly these octets, if there is one. -/
def decode? (bytes : Bytes) : Option String :=
  String.fromUTF8? ⟨bytes.toArray⟩

theorem decode?_encode (text : String) : decode? (encode text) = some text := by
  have valid : text.toByteArray.IsValidUTF8 := text.isValidUTF8
  have whole : (⟨(encode text).toArray⟩ : ByteArray) = text.toByteArray := by simp [encode]
  rw [decode?, whole, String.fromUTF8?, dif_pos valid, String.fromUTF8]

theorem eq_encode_of_decode? {bytes : Bytes} {text : String}
    (read : decode? bytes = some text) : bytes = encode text := by
  unfold decode? String.fromUTF8? at read
  split at read
  · cases read
    simp [encode, String.fromUTF8]
  · cases read

end Utf8
end Text
end SortKey
