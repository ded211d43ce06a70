import ExactCover.Codec.Base64
import ExactCover.Codec.Fields
import ExactCover.Journal
import ExactCover.Text.Blank

namespace ExactCover

/-- Why a text is not a problem. -/
inductive Codec.Error (C R : Type) where
  /-- The text is not base64. -/
  | base64 (cause : Base64.Error)
  /-- The bytes are not the JSON form of parts. -/
  | json (cause : Json.Error)
  /-- The parts are not those of a problem. -/
  | problem (cause : Problem.Error C R)
deriving DecidableEq, Repr

namespace Codec

variable {C R : Type}

/-- The message for an error. What is wrong with the JSON has one only where it is well-formed. -/
def Error.message? [Label C] [Label R] : Error C R → Option String
  | base64 cause => some ("invalid base64 payload: " ++ cause.message)
  | json (.mismatch cause) => some ("invalid problem encoding: " ++ cause.message)
  | json _ => none
  | problem cause => some cause.message

variable [Ord C] [Ord R] [Json.Coded C] [Json.Coded R]

/-- The text of a problem, the JSON form of its parts in base64. Its characters are all ASCII
    letters, digits, `-` and `_`, so it can stand in a link. -/
def encode (p : Problem C R) : String :=
  Base64.text (Json.Coded.write p.toParts)

/-- The bytes that a text encodes. White space around the text does not matter. -/
def payload (text : String) : Except Base64.Error Bytes :=
  Base64.decode (Bytes.ofString (Text.trim text))

/-- The problem that a text describes. -/
def decode (text : String) : Except (Error C R) (Problem C R) := do
  let bytes ← (payload text).mapError .base64
  let parts ← (Json.readAll Json.Coded.read bytes).mapError .json
  (Problem.ofParts parts).mapError .problem

/-- The report about a problem that was decoded. -/
def decoded (p : Problem C R) : Report :=
  ⟨.debug, .codec, "decoded problem",
    [("columns", Decimal.ofNat p.columns.length), ("rows", Decimal.ofNat p.rowCount)]⟩

end Codec

end ExactCover
