import ExactCover.Json.Error
import ExactCover.Text.Bytes

namespace ExactCover.Json

/-- Reads a value from the front of a text and returns the bytes that follow it too. -/
abbrev Reader (α : Type) := Bytes → Except Error (α × Bytes)

/-- White space between tokens: space, tab, line feed and carriage return. -/
def isSpace (b : UInt8) : Bool := b == ascii ' ' || b == 9 || b == 10 || b == 13

/-- What follows the white space at the front of a text. -/
def skipSpace (bs : Bytes) : Bytes := bs.dropWhile isSpace

/-- Whether a byte is a decimal digit. -/
def isDigit (b : UInt8) : Bool := ascii '0' ≤ b && b ≤ ascii '9'

/-- The value of a decimal digit. -/
def digitValue (b : UInt8) : Nat := b.toNat - (ascii '0').toNat

/-- Reads the rest of a word that has to stand at the front. -/
def word : Bytes → Bytes → Except Error Bytes
  | [], bs => .ok bs
  | _ :: _, [] => .error .truncated
  | w :: ws, b :: bs => if b = w then word ws bs else .error .malformed

end ExactCover.Json
