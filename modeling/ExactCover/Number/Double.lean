namespace ExactCover

/-- A finite double without sign, `significand * 2 ^ exponent` with a significand below `2 ^ 53`. -/
structure Double where
  significand : Nat
  exponent : Int
deriving DecidableEq, Repr

namespace Double

/-- The double zero. -/
def zero : Double := ⟨0, 0⟩

/-- Whether a double is zero. -/
def isZero (x : Double) : Bool := x.significand == 0

/-- The numerator of a power with an integer exponent. -/
def powerNum (base : Nat) (e : Int) : Nat := base.pow e.toNat

/-- The denominator of a power with an integer exponent. -/
def powerDen (base : Nat) (e : Int) : Nat := base.pow (-e).toNat

/-- The double as a quotient of naturals. -/
def ratio (x : Double) : Nat × Nat :=
  (x.significand * powerNum 2 x.exponent, powerDen 2 x.exponent)

/-- The quotient of naturals, rounded to the nearest natural and to the even one in a tie. -/
def roundDiv (num den : Nat) : Nat :=
  let quotient := num / den
  let rest := 2 * (num % den)
  if rest > den ∨ (rest = den ∧ quotient % 2 = 1) then quotient + 1 else quotient

/-- The exponent `e` with `2 ^ e ≤ num / den < 2 ^ (e + 1)`, for positive numbers. -/
def binaryExponent (num den : Nat) : Int :=
  let e := (num.log2 : Int) - den.log2
  if num * powerDen 2 e ≥ den * powerNum 2 e then e else e - 1

/-- The least significand of a double that is not too small for full precision, `2 ^ 52`. -/
def leastNormal : Nat := 0x10000000000000

/-- The double nearest to a quotient. There is none when the quotient is too large. -/
def ofRatio? (num den : Nat) : Option Double :=
  if num = 0 then some zero
  else
    let q := max (binaryExponent num den - 52) (-1074)
    let m := roundDiv (num * powerDen 2 q) (den * powerNum 2 q)
    let x : Double := if m < 2 * leastNormal then ⟨m, q⟩ else ⟨leastNormal, q + 1⟩
    if x.exponent ≤ 971 then some x else none

/-- The double nearest to a natural below `2 ^ 1023`. -/
def ofNat (n : Nat) : Double := (ofRatio? n 1).getD zero

/-- The rounded product. -/
def mul? (x y : Double) : Option Double :=
  ofRatio? (x.ratio.1 * y.ratio.1) (x.ratio.2 * y.ratio.2)

/-- The rounded quotient by a positive double. -/
def div? (x y : Double) : Option Double :=
  ofRatio? (x.ratio.1 * y.ratio.2) (x.ratio.2 * y.ratio.1)

end Double

end ExactCover
