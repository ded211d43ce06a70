namespace ExactCover

/-- Text as a sequence of bytes. -/
abbrev Bytes := List UInt8

namespace Bytes

/-- The bytes of a string in UTF-8. -/
def ofString (s : String) : Bytes := s.toByteArray.data.toList

/-- The text that bytes stand for, if they are UTF-8. -/
def toString? (bs : Bytes) : Option String := String.fromUTF8? ⟨bs.toArray⟩

end Bytes

/-- The byte of an ASCII character. -/
def ascii (c : Char) : UInt8 := c.toUInt8

end ExactCover
