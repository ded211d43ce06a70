import ExactCover.Json.Token

namespace ExactCover.Json

/-- The digits of a number as they are written, without its sign. -/
structure Numeral where
  whole : List Nat
  /-- The digits after the point; there is no point if there are none. -/
  fraction : List Nat
  /-- The sign and the digits of the power of ten. -/
  power : Option (Bool × List Nat)
deriving DecidableEq, Repr

namespace Numeral

/-- The digits at the front of a text. -/
def digits (bs : Bytes) : List Nat × Bytes :=
  ((bs.takeWhile isDigit).map digitValue, bs.dropWhile isDigit)

/-- One digit or more. -/
def digitsOne (bs : Bytes) : Except Error (List Nat × Bytes) :=
  match digits bs with
  | ([], []) => .error .truncated
  | ([], _) => .error .malformed
  | (ds, rest) => .ok (ds, rest)

/-- The digits in front of the point. A zero is followed by no other digit. -/
def readWhole (bs : Bytes) : Except Error (List Nat × Bytes) := do
  let (ds, rest) ← digitsOne bs
  match ds with
  | 0 :: _ :: _ => .error .malformed
  | ds => .ok (ds, rest)

/-- The point with the digits after it, if there is one. -/
def readFraction : Reader (List Nat)
  | [] => .ok ([], [])
  | b :: bs => if b = ascii '.' then digitsOne bs else .ok ([], b :: bs)

/-- The sign in front of a power; it is positive if none is written. -/
def readSign : Bytes → Bool × Bytes
  | [] => (false, [])
  | b :: bs =>
    if b = ascii '-' then (true, bs) else if b = ascii '+' then (false, bs) else (false, b :: bs)

/-- The power of ten, if there is one. -/
def readPower : Reader (Option (Bool × List Nat))
  | [] => .ok (none, [])
  | b :: bs =>
    if b = ascii 'e' ∨ b = ascii 'E' then do
      let (negative, bs) := readSign bs
      let (ds, rest) ← digitsOne bs
      return (some (negative, ds), rest)
    else .ok (none, b :: bs)

/-- Reads a number without its sign. -/
def read (bs : Bytes) : Except Error (Numeral × Bytes) := do
  let (whole, bs) ← readWhole bs
  let (fraction, bs) ← readFraction bs
  let (power, bs) ← readPower bs
  return (⟨whole, fraction, power⟩, bs)

/-- Adds digits to a number as long as it stays below `2 ^ 64`. Returns the digits left over too. -/
def gather : Nat → List Nat → Nat × List Nat
  | n, [] => (n, [])
  | n, d :: ds => if 10 * n + d < UInt64.size then gather (10 * n + d) ds else (n, d :: ds)

/-- A power of ten as a double, for exponents up to 308. -/
def tenPower (e : Nat) : Double := .ofNat (Nat.pow 10 e)

/-- `x / 10 ^ e`, where the power is divided out in pieces that are doubles. -/
def divPower (x : Double) (e : Nat) : Option Double :=
  if e ≤ 308 then x.div? (tenPower e)
  else if x.isZero then some x
  else (x.div? (tenPower 308)).bind fun y => divPower y (e - 308)
termination_by e

/-- `x * 10 ^ e`, if it is not too large. -/
def mulPower (x : Double) (e : Nat) : Option Double :=
  if e ≤ 308 then x.mul? (tenPower e) else if x.isZero then some x else none

/-- `n * 10 ^ e` as the double that results from rounding first `n` and then the product or the
    quotient. -/
def scale (n : Nat) (e : Int) : Option Double :=
  if e < 0 then divPower (.ofNat n) e.natAbs else mulPower (.ofNat n) e.natAbs

/-- The double a number stands for, without its sign. Of the digits only as many count as make a
    number below `2 ^ 64`; further digits before the point raise the power of ten. A number that
    is too large is refused, whereas one that is too small is zero. -/
def toDouble? (x : Numeral) : Option Double :=
  let (n, uncounted) := gather 0 x.whole
  let (m, ignored) := gather n x.fraction
  let base := (uncounted.length : Int) - ((x.fraction.length : Int) - ignored.length)
  match x.power with
  | none => scale m base
  | some (negative, ds) =>
    let e := Decimal.value ds
    if e < 0x80000000 then scale m (if negative then base - e else base + e)
    else if m = 0 ∨ negative then some .zero else none

/-- The value of a number with its sign. It is an integer if it is written as one and fits 64 bits,
    with a sign if it has one; the negative zero does not count as an integer. -/
def found? (negative : Bool) (x : Numeral) : Option Found :=
  let n := Decimal.value x.whole
  let plain := x.fraction.isEmpty && x.power.isNone
  if plain && !negative && n < UInt64.size then some (.integer n)
  else if plain && negative && 0 < n && 2 * n ≤ UInt64.size then some (.integer (-(n : Int)))
  else x.toDouble?.map (.float negative)

end Numeral

/-- Reads a number. Its text begins with a minus sign or a digit. -/
def readNumber : Reader Found
  | [] => .error .truncated
  | b :: bs => do
    let negative := b == ascii '-'
    let (x, rest) ← Numeral.read (if negative then bs else b :: bs)
    match x.found? negative with
    | some found => .ok (found, rest)
    | none => .error .malformed

/-- Passes over a number. A number that breaks off counts as malformed here, and its size does not
    matter. -/
def skipNumber : Bytes → Except Error Bytes
  | [] => .error .malformed
  | b :: bs =>
    match Numeral.read (if b = ascii '-' then bs else b :: bs) with
    | .ok (_, rest) => .ok rest
    | .error _ => .error .malformed

end ExactCover.Json
