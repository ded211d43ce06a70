import ExactCover.Json.Numeral
import ExactCover.Json.Text

namespace ExactCover.Json

/-- Passes over a quoted name and the colon after it. -/
def skipName (bs : Bytes) : Except Error Bytes :=
  match skipSpace bs with
  | [] => .error .truncated
  | b :: bs =>
    if b ≠ quote then .error .malformed
    else do
      match skipSpace (← skipString bs) with
      | [] => .error .truncated
      | c :: rest => if c = ascii ':' then .ok rest else .error .malformed

/-- Passes over a value that is neither a sequence nor a map. -/
def skipScalar : Bytes → Except Error Bytes
  | [] => .error .truncated
  | b :: bs =>
    if b = ascii 'n' then word (Bytes.ofString "ull") bs
    else if b = ascii 't' then word (Bytes.ofString "rue") bs
    else if b = ascii 'f' then word (Bytes.ofString "alse") bs
    else if b = quote then skipString bs
    else if b = ascii '-' ∨ isDigit b then skipNumber (b :: bs)
    else .error .malformed

mutual

/-- Passes over a value that may be nested less deeply than the limit. -/
def skipNested : (limit : Nat) → Bytes → Except Error Bytes
  | 0, _ => .error .malformed
  | limit + 1, bs =>
    match skipSpace bs with
    | [] => .error .truncated
    | b :: bs =>
      if b = ascii '[' then
        match skipSpace bs with
        | [] => .error .truncated
        | c :: rest => if c = ascii ']' then .ok rest else skipElements limit (c :: rest)
      else if b = ascii '\x7b' then
        match skipSpace bs with
        | [] => .error .truncated
        | c :: rest => if c = ascii '\x7d' then .ok rest else skipMembers limit (c :: rest)
      else skipScalar (b :: bs)

/-- Passes over the elements of a sequence and the bracket that closes it. -/
def skipElements : (limit : Nat) → Bytes → Except Error Bytes
  | 0, _ => .error .malformed
  | limit + 1, bs => do
    match skipSpace (← skipNested limit bs) with
    | [] => .error .truncated
    | b :: rest =>
      if b = ascii ',' then skipElements limit rest
      else if b = ascii ']' then .ok rest
      else .error .malformed

/-- Passes over the members of a map and the brace that closes it. -/
def skipMembers : (limit : Nat) → Bytes → Except Error Bytes
  | 0, _ => .error .malformed
  | limit + 1, bs => do
    let bs ← skipName bs
    match skipSpace (← skipNested limit bs) with
    | [] => .error .truncated
    | b :: rest =>
      if b = ascii ',' then skipMembers limit rest
      else if b = ascii '\x7d' then .ok rest
      else .error .malformed

end

/-- Passes over a value of any shape. It has to be well-formed, but what it stands for does not
    matter, so a number may be out of range and a string need not be valid text. A bracket, a comma
    or a brace stands between any two steps of the three functions that the limit counts, so twice
    the length of the text is enough. -/
def skipValue (bs : Bytes) : Except Error Bytes := skipNested (2 * bs.length + 2) bs

end ExactCover.Json
