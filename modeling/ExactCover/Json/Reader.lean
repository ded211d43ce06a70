import ExactCover.Json.Numeral
import ExactCover.Json.Text

namespace ExactCover.Json

/-- Looks at a value whose shape does not fit. Numbers and texts are read to their end, of a
    sequence or a map only the opening bracket is. -/
def found : Bytes → Except Error Found
  | [] => .error .truncated
  | b :: bs =>
    if b = ascii 'n' then do
      let _ ← word (Bytes.ofString "ull") bs
      return .null
    else if b = ascii 't' then do
      let _ ← word (Bytes.ofString "rue") bs
      return .boolean true
    else if b = ascii 'f' then do
      let _ ← word (Bytes.ofString "alse") bs
      return .boolean false
    else if b = quote then do
      let (s, _) ← readString bs
      return .string s
    else if b = ascii '-' ∨ isDigit b then do
      let (n, _) ← readNumber (b :: bs)
      return n
    else if b = ascii '[' then .ok .sequence
    else if b = ascii '\x7b' then .ok .map
    else .error .malformed

/-- The error for a value that has another type than the one wanted. -/
def unfit (wanted : Shape) (bs : Bytes) : Error :=
  match found bs with
  | .ok value => .mismatch (.wrongType value wanted)
  | .error e => e

/-- Reads an integer within bounds. -/
def readInteger (wanted : Shape) (least greatest : Int) : Reader Int := fun bs =>
  match skipSpace bs with
  | [] => .error .truncated
  | b :: bs =>
    if b = ascii '-' ∨ isDigit b then do
      let (value, rest) ← readNumber (b :: bs)
      match value with
      | .integer n =>
        if least ≤ n ∧ n ≤ greatest then .ok (n, rest)
        else .error (.mismatch (.wrongValue value wanted))
      | _ => .error (.mismatch (.wrongType value wanted))
    else .error (unfit wanted (b :: bs))

/-- Reads a string where a value of the given shape is wanted. -/
def readText (wanted : Shape) : Reader String := fun bs =>
  match skipSpace bs with
  | [] => .error .truncated
  | b :: bs => if b = quote then readString bs else .error (unfit wanted (b :: bs))

/-- Reads a string of exactly one character. -/
def readCharacter : Reader Char := fun bs => do
  let (s, rest) ← readText .character bs
  match s.toList with
  | [c] => .ok (c, rest)
  | _ => .error (.mismatch (.wrongValue (.string s) .character))

/-- Reads the bracket that opens a sequence. -/
def openSequence (wanted : Shape) (bs : Bytes) : Except Error Bytes :=
  match skipSpace bs with
  | [] => .error .truncated
  | b :: bs => if b = ascii '[' then .ok bs else .error (unfit wanted (b :: bs))

/-- Goes on to the next element of a sequence, past the comma in front of it unless it is the first
    one. There is none if the sequence closes here. -/
def nextElement (first : Bool) (bs : Bytes) : Except Error (Option Bytes) :=
  match skipSpace bs with
  | [] => .error .truncated
  | b :: bs =>
    if b = ascii ']' then .ok none
    else if first then .ok (some (b :: bs))
    else if b = ascii ',' then
      match skipSpace bs with
      | [] => .error .truncated
      | c :: rest => if c = ascii ']' then .error .malformed else .ok (some (c :: rest))
    else .error .malformed

/-- Reads the bracket that closes a sequence. Further elements are not JSON of the wanted shape. -/
def closeSequence (bs : Bytes) : Except Error Bytes :=
  match skipSpace bs with
  | [] => .error .truncated
  | b :: rest => if b = ascii ']' then .ok rest else .error .malformed

/-- Reads the element after the first `index` ones of a sequence that has to have it. -/
def readElement {α : Type} (wanted : Shape) (index : Nat) (element : Reader α) : Reader α :=
  fun bs => do
    match ← nextElement (index == 0) bs with
    | none => .error (.mismatch (.tooShort index wanted))
    | some bs => element bs

/-- Reads elements up to the end of a sequence, fewer of them than the limit. -/
def readElements {α : Type} (element : Reader α) : (limit : Nat) → (first : Bool) → Reader (List α)
  | 0, _, _ => .error .malformed
  | limit + 1, first, bs => do
    match ← nextElement first bs with
    | none => return ([], bs)
    | some bs =>
      let (x, bs) ← element bs
      let (xs, bs) ← readElements element limit false bs
      return (x :: xs, bs)

/-- Reads a sequence of any length. Every element takes up at least one byte, so the limit is never
    reached. -/
def readList {α : Type} (element : Reader α) : Reader (List α) := fun bs => do
  let bs ← openSequence .sequence bs
  let (xs, bs) ← readElements element (bs.length + 1) true bs
  return (xs, ← closeSequence bs)

/-- Reads a sequence of two elements. -/
def readPair {α β : Type} (first : Reader α) (second : Reader β) : Reader (α × β) := fun bs => do
  let bs ← openSequence .pair bs
  let (x, bs) ← readElement .pair 0 first bs
  let (y, bs) ← readElement .pair 1 second bs
  return ((x, y), ← closeSequence bs)

/-- Goes on to the next name in a map, past the comma in front of it unless it is the first one. The
    opening quotation mark is read. There is none if the map closes here. -/
def nextName (first : Bool) (bs : Bytes) : Except Error (Option Bytes) :=
  match skipSpace bs with
  | [] => .error .truncated
  | b :: bs =>
    if b = ascii '\x7d' then .ok none
    else if first then if b = quote then .ok (some bs) else .error .malformed
    else if b = ascii ',' then
      match skipSpace bs with
      | [] => .error .truncated
      | c :: rest => if c = quote then .ok (some rest) else .error .malformed
    else .error .malformed

/-- Reads the colon between a name and its value. -/
def readColon (bs : Bytes) : Except Error Bytes :=
  match skipSpace bs with
  | [] => .error .truncated
  | b :: rest => if b = ascii ':' then .ok rest else .error .malformed

/-- Reads a text that holds one value and nothing else. -/
def readAll {α : Type} (value : Reader α) (bs : Bytes) : Except Error α := do
  let (x, rest) ← value bs
  if (skipSpace rest).isEmpty then return x else throw .malformed

end ExactCover.Json
