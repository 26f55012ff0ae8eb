/-
# Texts as bytes

The UTF-8 bytes of a text, and the text that bytes encode, if they encode one.
-/

namespace FlowSelect
namespace Text

/-- The UTF-8 bytes of a text. -/
def bytes (s : String) : List UInt8 := s.toList.flatMap String.utf8EncodeChar

/-- The text encoded by bytes, if they are valid UTF-8. -/
def ofBytes? (bs : List UInt8) : Option String := String.fromUTF8? bs.toByteArray

end Text
end FlowSelect
