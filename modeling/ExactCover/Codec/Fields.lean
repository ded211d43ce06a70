import ExactCover.Json.Coded
import ExactCover.Json.Skip
import ExactCover.Problem.Parts

namespace ExactCover.Parts

open Json

variable {C R : Type}

/-- The fields read so far. -/
structure Draft (C R : Type) where
  columns : Option (List C) := none
  rows : Option (List (R × List C)) := none
  targets : Option (List (C × Amount)) := none
  amounts : Option (List (R × List (C × Amount))) := none

/-- What parts are called when something else is found in their place. -/
def shape : Shape := .record "Parts" 4

/-- The parts that a draft with all its fields holds. Of several missing fields the first in the
    order of writing is reported. -/
def Draft.complete (d : Draft C R) : Except Error (Parts C R) := do
  let demand {α : Type} (name : String) (field : Option α) : Except Error α :=
    field.elim (.error (.mismatch (.missingField name))) .ok
  let columns ← demand "columns" d.columns
  let rows ← demand "rows" d.rows
  let targets ← demand "targets" d.targets
  let amounts ← demand "amounts" d.amounts
  return ⟨columns, rows, targets, amounts⟩

/-- The JSON form of parts, without white space. -/
def write [Coded C] [Coded R] (parts : Parts C R) : Bytes :=
  let field (name : String) (value : Bytes) : Bytes := writeString name ++ ascii ':' :: value
  ascii '\x7b' :: [ascii ','].intercalate
    [field "columns" (Coded.write parts.columns), field "rows" (Coded.write parts.rows),
      field "targets" (Coded.write parts.targets), field "amounts" (Coded.write parts.amounts)]
    ++ [ascii '\x7d']

/-- Reads the value of a field that was not read before. A second value is refused as soon as its
    name is seen. -/
def readField {α : Type} [Coded α] (name : String) (field : Option α) : Reader (Option α) :=
  fun bs => do
    if field.isSome then throw (.mismatch (.duplicateField name))
    let (value, rest) ← Coded.read (← readColon bs)
    return (some value, rest)

variable [Coded C] [Coded R]

/-- Reads the value of a member of the map whose name has been read. -/
def readMember (name : String) (d : Draft C R) : Reader (Draft C R) := fun bs => do
  if name = "columns" then
    let (value, rest) ← readField name d.columns bs
    return ({ d with columns := value }, rest)
  else if name = "rows" then
    let (value, rest) ← readField name d.rows bs
    return ({ d with rows := value }, rest)
  else if name = "targets" then
    let (value, rest) ← readField name d.targets bs
    return ({ d with targets := value }, rest)
  else if name = "amounts" then
    let (value, rest) ← readField name d.amounts bs
    return ({ d with amounts := value }, rest)
  else
    return (d, ← skipValue (← readColon bs))

/-- Reads members up to the end of the map, fewer of them than the limit. -/
def readMembers : (limit : Nat) → (first : Bool) → Draft C R → Reader (Draft C R)
  | 0, _, _, _ => .error .malformed
  | limit + 1, first, d, bs => do
    match ← nextName first bs with
    | none => return (d, bs)
    | some bs =>
      let (name, bs) ← readString bs
      let (d, bs) ← readMember name d bs
      readMembers limit false d bs

/-- Reads parts written as a map, behind its opening brace. -/
def readMap : Reader (Parts C R) := fun bs => do
  let (d, bs) ← readMembers (bs.length + 1) true {} bs
  let parts ← d.complete
  -- The members end in front of the closing brace.
  return (parts, (skipSpace bs).tail)

/-- Reads parts written as a sequence, behind its opening bracket. -/
def readSequence : Reader (Parts C R) := fun bs => do
  let (columns, bs) ← readElement shape 0 Coded.read bs
  let (rows, bs) ← readElement shape 1 Coded.read bs
  let (targets, bs) ← readElement shape 2 Coded.read bs
  let (amounts, bs) ← readElement shape 3 Coded.read bs
  return (⟨columns, rows, targets, amounts⟩, ← closeSequence bs)

/-- Reads parts in either form: a map of the four fields in any order, among which other fields are
    passed over, or a sequence of their values. -/
def read : Reader (Parts C R) := fun bs =>
  match skipSpace bs with
  | [] => .error .truncated
  | b :: bs =>
    if b = ascii '\x7b' then readMap bs
    else if b = ascii '[' then readSequence bs
    else .error (unfit shape (b :: bs))

/-- Parts are written as a map, and read from a map or a sequence. -/
instance : Coded (Parts C R) := ⟨write, read⟩

end ExactCover.Parts
