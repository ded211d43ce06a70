import ExactCover.Number.Double
import ExactCover.Text.Decimal

namespace ExactCover.Double

/-- Whether `num / den` lies among the reals that round to the double. The ends of the interval
    round to it just if its significand is even. -/
def roundsTo (x : Double) (num den : Nat) : Bool :=
  let m := x.significand
  -- The gap below a power of two is half as wide, except below the smallest normal number.
  let below := if m = leastNormal ∧ x.exponent > -1074 then 4 * m - 1 else 4 * m - 2
  let above := 4 * m + 2
  let value := 4 * num * powerDen 2 x.exponent
  let unit := den * powerNum 2 x.exponent
  if m % 2 = 0 then below * unit ≤ value ∧ value ≤ above * unit
  else below * unit < value ∧ value < above * unit

/-- The number of digits of a quotient of positive naturals before the point, less one; negative
    for a quotient below one. -/
def decimalExponent (num den : Nat) : Int :=
  let e := ((Decimal.digits num).length : Int) - (Decimal.digits den).length
  if num * powerDen 10 e ≥ den * powerNum 10 e then e else e - 1

/-- The decimal with the given number of digits that reads back as the double, as a number `d` with
    the power of ten it is multiplied by. Of two such decimals the nearer counts, and in a tie the
    even one. -/
def decimal? (x : Double) (digits : Nat) : Option (Nat × Int) :=
  let (num, den) := x.ratio
  let k := decimalExponent num den - (digits : Int) + 1
  let scaled := num * powerDen 10 k
  let unit := den * powerNum 10 k
  let nearest := roundDiv scaled unit
  let other := if nearest * unit ≤ scaled then nearest + 1 else nearest - 1
  let fits := fun d => x.roundsTo (d * powerNum 10 k) (powerDen 10 k)
  if fits nearest then some (nearest, k) else if fits other then some (other, k) else none

/-- The shortest decimal of a positive double. Seventeen digits always suffice. -/
def shortest (x : Double) : Nat × Int :=
  ((List.range 17).findSome? fun n => x.decimal? (n + 1)).getD (0, 0)

/-- Digits with a point after the first `whole` of them, where zeros fill up on either side. -/
def positional (ds : List Nat) (whole : Int) : List Char :=
  let text := ds.map Decimal.digitChar
  if whole ≤ 0 then '0' :: '.' :: (List.replicate (-whole).toNat '0' ++ text)
  else
    let before := text.take whole.toNat
    let filled := before ++ List.replicate (whole.toNat - before.length) '0'
    let after := text.drop whole.toNat
    filled ++ '.' :: (if after.isEmpty then ['0'] else after)

/-- Digits with a point after the first one, if there are others, and a power of ten, which always
    has a sign. -/
def scientific (ds : List Nat) (e : Int) : List Char :=
  let power := (Decimal.digits e.natAbs).map Decimal.digitChar
  let text := match ds.map Decimal.digitChar with
    | first :: [] => [first]
    | first :: others => first :: '.' :: others
    | [] => []
  text ++ 'e' :: (if e < 0 then '-' else '+') :: power

/-- The text of a double. Numbers from `10 ^ -5` up to `10 ^ 16` are written positionally, with at
    least one digit after the point. Its digits are the fewest that read back as the same double,
    and of those the nearest to it. -/
def text (negative : Bool) (x : Double) : String :=
  let body :=
    if x.isZero then ['0', '.', '0']
    else
      let (d, k) := x.shortest
      let ds := Decimal.digits d
      let e := (ds.length : Int) - 1 + k
      let significant := (ds.reverse.dropWhile (· = 0)).reverse
      if -5 ≤ e ∧ e ≤ 15 then positional significant (e + 1) else scientific significant e
  String.ofList (if negative then '-' :: body else body)

end ExactCover.Double
