import ExactCover.Number.Shortest
import ExactCover.Text.Quoted

namespace ExactCover.Json

/-- A value that was found in the text. Of sequences and maps only the beginning is known. -/
inductive Found where
  | null
  | boolean (value : Bool)
  | integer (value : Int)
  | float (negative : Bool) (magnitude : Double)
  | string (value : String)
  | sequence
  | map
deriving DecidableEq, Repr

/-- The shape of value that was needed. -/
inductive Shape where
  | sequence
  | pair
  /-- A record of a type with a number of fields. -/
  | record (type : String) (fields : Nat)
  | string
  | character
  | signed64
  | unsigned32
  | unsigned8
deriving DecidableEq, Repr

/-- A well-formed value that does not fit. -/
inductive Mismatch where
  | missingField (name : String)
  | duplicateField (name : String)
  /-- A sequence has fewer elements than the shape. -/
  | tooShort (length : Nat) (wanted : Shape)
  | wrongType (found : Found) (wanted : Shape)
  /-- The value has the right type and is out of its range. -/
  | wrongValue (found : Found) (wanted : Shape)
deriving DecidableEq, Repr

/-- Why a text could not be read. -/
inductive Error where
  /-- The text ends inside a value. -/
  | truncated
  /-- The text is not JSON. -/
  | malformed
  | mismatch (cause : Mismatch)
deriving DecidableEq, Repr

/-- How a message names the value found. -/
def Found.text : Found → String
  | null => "null"
  | boolean value => "boolean \x60" ++ (if value then "true" else "false") ++ "\x60"
  | integer value => "integer \x60" ++ Decimal.ofInt value ++ "\x60"
  | float negative magnitude => "floating point \x60" ++ magnitude.text negative ++ "\x60"
  | string value => "string " ++ Quoted.ofString value
  | sequence => "sequence"
  | map => "map"

/-- How a message names the shape expected. -/
def Shape.text : Shape → String
  | sequence => "a sequence"
  | pair => "a tuple of size 2"
  | record type _ => "struct " ++ type
  | string => "a string"
  | character => "a character"
  | signed64 => "i64"
  | unsigned32 => "u32"
  | unsigned8 => "u8"

/-- The text of a shape where the number of its elements matters. -/
def Shape.lengthText : Shape → String
  | record type fields => "struct " ++ type ++ " with " ++ Decimal.ofNat fields ++ " elements"
  | shape => shape.text

/-- The text of a mismatch. -/
def Mismatch.message : Mismatch → String
  | missingField name => "missing field \x60" ++ name ++ "\x60"
  | duplicateField name => "duplicate field \x60" ++ name ++ "\x60"
  | tooShort length wanted =>
    "invalid length " ++ Decimal.ofNat length ++ ", expected " ++ wanted.lengthText
  | wrongType found wanted => "invalid type: " ++ found.text ++ ", expected " ++ wanted.text
  | wrongValue found wanted => "invalid value: " ++ found.text ++ ", expected " ++ wanted.text

end ExactCover.Json
