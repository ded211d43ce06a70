import ExactCover.Json.Reader

namespace ExactCover.Json

/-- A type whose values are written to JSON and read from it. Labels, amounts, pairs and lists are
    such. -/
class Coded (α : Type) where
  write : α → Bytes
  read : Reader α

/-- Elements between brackets, with commas and no white space. -/
def writeSequence (elements : List Bytes) : Bytes :=
  ascii '[' :: [ascii ','].intercalate elements ++ [ascii ']']

/-- The numeral of an integer. -/
def writeInteger (n : Int) : Bytes := Bytes.ofString (Decimal.ofInt n)

namespace Coded

/-- Strings are JSON strings. -/
instance : Coded String where
  write := writeString
  read := readText .string

/-- Characters are written as strings of one character. -/
instance : Coded Char where
  write c := writeString c.toString
  read := readCharacter

/-- Integers are numbers. -/
instance : Coded Int64 where
  write n := writeInteger n.toInt
  read bs := do
    let (n, rest) ← readInteger .signed64 Int64.minValue.toInt Int64.maxValue.toInt bs
    return (Int64.ofInt n, rest)

/-- Bytes are numbers. -/
instance : Coded UInt8 where
  write n := writeInteger n.toNat
  read bs := do
    let (n, rest) ← readInteger .unsigned8 0 (UInt8.size - 1) bs
    return (UInt8.ofNat n.toNat, rest)

/-- Amounts are numbers. -/
instance : Coded UInt32 where
  write n := writeInteger n.toNat
  read bs := do
    let (n, rest) ← readInteger .unsigned32 0 (UInt32.size - 1) bs
    return (UInt32.ofNat n.toNat, rest)

/-- A pair is a sequence of two values. -/
instance {α β : Type} [Coded α] [Coded β] : Coded (α × β) where
  write pair := writeSequence [write pair.1, write pair.2]
  read := readPair read read

/-- A list is a sequence of its elements. -/
instance {α : Type} [Coded α] : Coded (List α) where
  write xs := writeSequence (xs.map write)
  read := readList read

end Coded

end ExactCover.Json
