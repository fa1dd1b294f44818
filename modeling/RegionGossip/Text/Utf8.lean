/-!
# Text as bytes

Text travels as UTF-8. Reading is strict: only the bytes that some text is written as are read, so
overlong forms, surrogate code points and stray continuation bytes are refused.
-/

namespace RegionGossip

/-- The UTF-8 bytes of a text. -/
def utf8 (text : String) : List UInt8 := text.toByteArray.data.toList

/-- The text that is written as these bytes, if there is one. -/
def ofUtf8? (bytes : List UInt8) : Option String := String.fromUTF8? bytes.toByteArray

/-- A list of bytes becomes an array and back without loss. -/
theorem toByteArray_toList (bytes : ByteArray) : bytes.data.toList.toByteArray = bytes := by
  apply ByteArray.ext
  rw [List.data_toByteArray]

/-- Reading what was written gives the text back. -/
theorem ofUtf8?_utf8 (text : String) : ofUtf8? (utf8 text) = some text := by
  rw [ofUtf8?, utf8, toByteArray_toList, String.fromUTF8?, dif_pos text.isValidUTF8]
  rfl

/-- Bytes that can be read are the bytes of the text they give. -/
theorem utf8_of_ofUtf8? {bytes : List UInt8} {text : String} (read : ofUtf8? bytes = some text) :
    utf8 text = bytes := by
  rw [ofUtf8?, String.fromUTF8?] at read
  split at read
  · obtain rfl := Option.some.inj read
    show (bytes.toByteArray).data.toList = bytes
    rw [List.data_toByteArray]
  · exact absurd read (by simp)

end RegionGossip
