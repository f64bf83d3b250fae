import BootVolume.Bytes

/-!
# UTF-8

A text as bytes, and the texts that byte strings spell. Only the well-formed
encodings are texts: overlong forms, surrogates and code points past U+10FFFF
are refused.
-/

namespace BootVolume.Text

/-- The bytes of a text. -/
def utf8 (text : String) : Bytes := text.toList.flatMap String.utf8EncodeChar

/-- The text that `data` spells, if it is well-formed. -/
def ofUtf8? (data : Bytes) : Option String := String.fromUTF8? data.toByteArray

end BootVolume.Text
