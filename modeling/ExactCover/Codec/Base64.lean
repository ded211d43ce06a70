import ExactCover.Text.Bytes
import ExactCover.Text.Decimal

namespace ExactCover.Base64

/-- The symbol for a number below 64: letters, then digits, then `-` and `_`. -/
def symbol (v : Nat) : UInt8 :=
  if v < 26 then UInt8.ofNat (65 + v)
  else if v < 52 then UInt8.ofNat (71 + v)
  else if v < 62 then UInt8.ofNat (v - 4)
  else if v = 62 then ascii '-'
  else ascii '_'

/-- The number that a symbol stands for. -/
def value? (b : UInt8) : Option Nat :=
  let n := b.toNat
  if 65 ≤ n ∧ n ≤ 90 then some (n - 65)
  else if 97 ≤ n ∧ n ≤ 122 then some (n - 71)
  else if 48 ≤ n ∧ n ≤ 57 then some (n + 4)
  else if b = ascii '-' then some 62
  else if b = ascii '_' then some 63
  else none

/-- Four symbols for every three bytes. One or two bytes at the end become two or three symbols,
    in which the bits left over are zero. -/
def encode : Bytes → Bytes
  | a :: b :: c :: rest =>
    symbol (a.toNat / 4) :: symbol (a.toNat % 4 * 16 + b.toNat / 16)
      :: symbol (b.toNat % 16 * 4 + c.toNat / 64) :: symbol (c.toNat % 64) :: encode rest
  | [a, b] =>
    [symbol (a.toNat / 4), symbol (a.toNat % 4 * 16 + b.toNat / 16), symbol (b.toNat % 16 * 4)]
  | [a] => [symbol (a.toNat / 4), symbol (a.toNat % 4 * 16)]
  | [] => []

/-- The encoded bytes as a text. -/
def text (bs : Bytes) : String := String.ofList ((encode bs).map fun b => Char.ofNat b.toNat)

/-- What can be wrong with a text. Offsets count bytes from its start. -/
inductive Error where
  /-- The byte has no place where it stands. -/
  | badSymbol (byte : UInt8) (offset : Nat)
  /-- No bytes have a text of this length. -/
  | badLength (length : Nat)
  /-- The text is padded. -/
  | badPadding
  /-- The last symbol has bits that belong to no byte. -/
  | badLastSymbol (byte : UInt8) (offset : Nat)
deriving DecidableEq, Repr

/-- The text of a refusal. -/
def Error.message : Error → String
  | badSymbol byte offset =>
    "Invalid symbol " ++ Decimal.ofNat byte.toNat ++ ", offset " ++ Decimal.ofNat offset ++ "."
  | badLength length => "Invalid input length: " ++ Decimal.ofNat length
  | badPadding => "Invalid padding"
  | badLastSymbol byte offset =>
    "Invalid last symbol " ++ Decimal.ofNat byte.toNat ++ ", offset " ++ Decimal.ofNat offset ++ "."

/-- The padding symbol of other forms of base64. -/
def pad : UInt8 := ascii '='

/-- The number of a symbol, or a report of the byte that is none. -/
def read (byte : UInt8) (offset : Nat) : Except Error Nat :=
  (value? byte).elim (.error (.badSymbol byte offset)) .ok

/-- The three bytes of four symbols. -/
def quad (a b c d : Nat) : Bytes :=
  [UInt8.ofNat (a * 4 + b / 16), UInt8.ofNat (b % 16 * 16 + c / 4), UInt8.ofNat (c % 4 * 64 + d)]

/-- The symbols in the last chunk of a text and whether padding follows them. The chunk begins at
    `start` and `i` of its symbols have been read. Padding may only end a chunk, after at least
    two symbols. -/
def readLast (start i : Nat) : Bytes → Except Error (List Nat × Bool)
  | [] => .ok ([], false)
  | b :: rest =>
    if b = pad then
      if i < 2 ∨ rest.any (· ≠ pad) then .error (.badSymbol pad (start + i)) else .ok ([], true)
    else do
      let v ← read b (start + i)
      let (vs, padded) ← readLast start (i + 1) rest
      return (v :: vs, padded)

/-- The bytes of the last chunk of a text, which begins at `start` and has at most four symbols. -/
def decodeLast (start : Nat) (chunk : Bytes) : Except Error Bytes := do
  let (vs, padded) ← readLast start 0 chunk
  if ¬ chunk.isEmpty ∧ vs.length < 2 then throw (.badLength (start + vs.length))
  if padded then throw .badPadding
  match vs with
  | [a, b] =>
    if b % 16 ≠ 0 then throw (.badLastSymbol (symbol b) (start + 1))
    return [UInt8.ofNat (a * 4 + b / 16)]
  | [a, b, c] =>
    if c % 4 ≠ 0 then throw (.badLastSymbol (symbol c) (start + 2))
    return [UInt8.ofNat (a * 4 + b / 16), UInt8.ofNat (b % 16 * 16 + c / 4)]
  | [a, b, c, d] => return quad a b c d
  | _ => return []

/-- The bytes of a text from `start` on, four symbols at a time. The last one to four symbols are
    held to stricter rules. -/
def decodeFrom (start : Nat) : Bytes → Except Error Bytes
  | a :: b :: c :: d :: e :: rest => do
    let a ← read a start
    let b ← read b (start + 1)
    let c ← read c (start + 2)
    let d ← read d (start + 3)
    return quad a b c d ++ (← decodeFrom (start + 4) (e :: rest))
  | chunk => decodeLast start chunk

/-- A symbol alone in the last chunk is looked at before all others, as it can encode nothing. -/
def checkLone (text : Bytes) : Except Error Unit :=
  match text.getLast? with
  | some b =>
    if text.length % 4 = 1 ∧ b ≠ pad ∧ value? b = none then
      .error (.badSymbol b (text.length - 1))
    else .ok ()
  | none => .ok ()

/-- The bytes that a text encodes. A text is accepted only in the form that encoding its bytes has,
    and otherwise the first thing wrong with it is reported. -/
def decode (text : Bytes) : Except Error Bytes := do
  checkLone text
  decodeFrom 0 text

end ExactCover.Base64
