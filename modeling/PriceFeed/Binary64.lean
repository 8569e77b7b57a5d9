import PriceFeed.Decimal

/-!
# Binary floating point of 64 bits

A finite number is a sign, a mantissa below 2^53 and a power of two from -1074 to 971. Every
operation rounds its exact result to the nearest such number, half to the even mantissa; a result
beyond the largest is `none`.

Decimal text is read from at most as many leading digits as fit 64 bits. The digits become the
nearest number, which is then scaled by a power of ten, with one more rounding for the power and
one for the product (`ofDecimal?`).
-/

namespace PriceFeed

/-- The value `± mantissa * 2 ^ exponent`. -/
structure Binary64 where
  negative : Bool
  mantissa : Nat
  exponent : Int
  deriving DecidableEq, Repr

namespace Binary64

def minExponent : Int := -1074

def maxExponent : Int := 971

def zero (negative : Bool) : Binary64 := ⟨negative, 0, minExponent⟩

/-- Two whole numbers whose quotient is `n / d` over `2 ^ e`. -/
def overPower (n d : Nat) (e : Int) : Nat × Nat := (n <<< (-e).toNat, d <<< e.toNat)

/-- The greatest `e` with `2 ^ e ≤ n / d`, for positive `n` and `d`. -/
def binaryOrder (n d : Nat) : Int :=
  let e : Int := (n.log2 : Int) - d.log2
  let (n, d) := overPower n d e
  if n < d then e - 1 else e

/-- The number nearest to `± n / d`. -/
def ofRatio? (negative : Bool) (n d : Nat) : Option Binary64 :=
  if n = 0 then some (zero negative)
  else
    let e := max (binaryOrder n d - 52) minExponent
    let (n, d) := overPower n d e
    let m := roundHalfEven n d
    let (m, e) := if m = 1 <<< 53 then (1 <<< 52, e + 1) else (m, e)
    if maxExponent < e then none else some ⟨negative, m, e⟩

/-- The magnitude of `x` over `2 ^ -1074`, a whole number. -/
def units (x : Binary64) : Nat := x.mantissa <<< (x.exponent - minExponent).toNat

/-- The number nearest to `x * y`, with the sign of `x`. -/
def scaleUp? (x y : Binary64) : Option Binary64 :=
  ofRatio? x.negative (x.units * y.units) (1 <<< (2 * minExponent.natAbs))

/-- The number nearest to `x / y`, with the sign of `x`. -/
def scaleDown? (x y : Binary64) : Option Binary64 := ofRatio? x.negative x.units y.units

/-! ## Reading decimals -/

/-- The greatest power of ten that scales a number in one step. -/
def maxTen : Nat := 308

/-- The number nearest to `10 ^ k`. -/
def tenPow (k : Nat) : Binary64 := (ofRatio? false (Nat.pow 10 k) 1).getD (zero false)

/-- `x` scaled by `10 ^ k`, in steps of at most `10 ^ 308`. -/
def scaleTen? (x : Binary64) (k : Int) : Option Binary64 :=
  if 0 ≤ k then
    if k ≤ maxTen then x.scaleUp? (tenPow k.toNat)
    else if x.mantissa = 0 then some x else none
  else if -k ≤ maxTen then x.scaleDown? (tenPow (-k).toNat)
  else if x.mantissa = 0 then some x
  else (x.scaleDown? (tenPow maxTen)).bind fun y => scaleTen? y (k + maxTen)
termination_by k.natAbs
decreasing_by simp only [maxTen] at *; omega

/-- The greatest number that 64 bits hold. -/
def maxSignificand : Nat := 18446744073709551615

/-- Cuts digits off the end of `n` until 64 bits hold it, and adds their number to `dropped`. -/
def cutDigits (n dropped : Nat) : Nat × Nat :=
  if n ≤ maxSignificand then (n, dropped) else cutDigits (n / 10) (dropped + 1)
termination_by n
decreasing_by simp only [maxSignificand] at *; omega

/-- Adds the places that 64 bits still hold; each lowers the power of ten by one. -/
def addPlaces (n : Nat) (power : Int) : List Nat → Nat × Int
  | [] => (n, power)
  | d :: places =>
    if n * 10 + d ≤ maxSignificand then addPlaces (n * 10 + d) (power - 1) places
    else (n, power)

/-- The number read from a whole part, the digits after the point and a power of ten. -/
def ofDecimal? (negative : Bool) (whole : Nat) (places : List Nat) (power : Int) :
    Option Binary64 :=
  let (n, dropped) := cutDigits whole 0
  let (n, shift) := addPlaces n dropped places
  (ofRatio? negative n 1).bind (·.scaleTen? (shift + power))

end Binary64

end PriceFeed
