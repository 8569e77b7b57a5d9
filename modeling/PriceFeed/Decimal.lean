import PriceFeed.Range

/-!
# Decimals of 96 bits

A decimal is a coefficient below 2^96 in magnitude over a power of ten with at most 28 places.
The exact result of an operation is brought back into this form by dropping the fewest places
that make it fit, rounding once, half to even; a result with too many digits before the point
has no such form and is `none`.

    Decimal.fit? c s : the fitting decimal with most places nearest to c / 10^s
    mul?, add?, sub?, div? : exact result, then `fit?`
    2 * |roundHalfEven n d * d - n| ≤ d                   (two_mul_roundHalfEven_mul_le,
                                                           two_mul_le_two_mul_roundHalfEven_mul)
-/

namespace PriceFeed

/-- The value `coefficient / 10 ^ scale`. -/
structure Decimal where
  coefficient : Int
  scale : Nat
  deriving DecidableEq, Repr

/-- The integer nearest to `n / d`, and of two the even one. -/
def roundHalfEven (n d : Nat) : Nat :=
  let q := n / d
  let twice := 2 * (n % d)
  if twice < d then q else if d < twice then q + 1 else q + q % 2

/-- The integer nearest to `n / d`, and of two the larger one. -/
def roundHalfUp (n d : Nat) : Nat := (2 * n + d) / (2 * d)

theorem two_mul_roundHalfEven_mul_le (n d : Nat) :
    2 * (roundHalfEven n d * d) ≤ 2 * n + d := by
  have h := Nat.div_add_mod n d
  have hc : d * (n / d) = n / d * d := Nat.mul_comm ..
  unfold roundHalfEven
  simp only
  split
  · omega
  · split
    · rw [Nat.add_mul]; omega
    · rcases Nat.mod_two_eq_zero_or_one (n / d) with he | he <;> rw [he, Nat.add_mul] <;> omega

theorem two_mul_le_two_mul_roundHalfEven_mul {d : Nat} (hd : 0 < d) (n : Nat) :
    2 * n ≤ 2 * (roundHalfEven n d * d) + d := by
  have h := Nat.div_add_mod n d
  have hm := Nat.mod_lt n hd
  have hc : d * (n / d) = n / d * d := Nat.mul_comm ..
  unfold roundHalfEven
  simp only
  split
  · omega
  · split
    · rw [Nat.add_mul]; omega
    · rcases Nat.mod_two_eq_zero_or_one (n / d) with he | he <;> rw [he, Nat.add_mul] <;> omega

theorem roundHalfEven_mul_self {d : Nat} (hd : 0 < d) (q : Nat) : roundHalfEven (q * d) d = q := by
  simp [roundHalfEven, hd]

namespace Decimal

/-- Coefficients stay below this in magnitude: the 96th power of two. -/
def limit : Nat := 79228162514264337593543950336

/-- The greatest number of places. -/
def maxScale : Nat := 28

/-- Coefficient and scale are in range. -/
def Valid (d : Decimal) : Prop := d.coefficient.natAbs < limit ∧ d.scale ≤ maxScale

def zero : Decimal := ⟨0, 0⟩

def one : Decimal := ⟨1, 0⟩

/-- An integer, with no places. -/
def ofInt (n : Int) : Decimal := ⟨n, 0⟩

def isZero (d : Decimal) : Bool := d.coefficient == 0

instance : Neg Decimal := ⟨fun d => ⟨-d.coefficient, d.scale⟩⟩

/-! ## Fitting -/

/-- The greatest scale up to `n` that `p` accepts. -/
def greatestScale (p : Nat → Bool) : Nat → Option Nat
  | 0 => if p 0 then some 0 else none
  | n + 1 => if p (n + 1) then some (n + 1) else greatestScale p n

/-- The magnitude of `c / 10 ^ s` in units of `10 ^ -t`, for `t ≤ s`. -/
def magnitudeAt (c : Int) (s t : Nat) : Nat := roundHalfEven c.natAbs (Nat.pow 10 (s - t))

/-- The decimal with most places nearest to `c / 10 ^ s`. -/
def fit? (c : Int) (s : Nat) : Option Decimal :=
  (greatestScale (fun t => magnitudeAt c s t < limit) (min s maxScale)).map fun t =>
    ⟨c.sign * magnitudeAt c s t, t⟩

/-! ## Arithmetic -/

def mul? (a b : Decimal) : Option Decimal :=
  if a.isZero || b.isZero then some zero
  else fit? (a.coefficient * b.coefficient) (a.scale + b.scale)

/-- The coefficient of `d` over `10 ^ s`, for `d.scale ≤ s`. -/
def coefficientAt (d : Decimal) (s : Nat) : Int := d.coefficient * Nat.pow 10 (s - d.scale)

def add? (a b : Decimal) : Option Decimal :=
  if a.isZero then some b
  else if b.isZero then some a
  else
    let s := max a.scale b.scale
    fit? (a.coefficientAt s + b.coefficientAt s) s

def sub? (a b : Decimal) : Option Decimal := a.add? (-b)

/-- The same value without zeros at the end of its places. -/
def trim (c : Int) : Nat → Decimal
  | 0 => ⟨c, 0⟩
  | s + 1 => if c.tmod 10 = 0 then trim (c.tdiv 10) s else ⟨c, s + 1⟩

def normalize (d : Decimal) : Decimal := trim d.coefficient d.scale

/-- The magnitude of `a / b` in units of `10 ^ -t`. -/
def quotientAt (a b : Decimal) (t : Nat) : Nat :=
  roundHalfEven (a.coefficient.natAbs * Nat.pow 10 (b.scale + t))
    (b.coefficient.natAbs * Nat.pow 10 a.scale)

/-- The quotient with most places, less the zeros at its end; there is none by zero. -/
def div? (a b : Decimal) : Option Decimal :=
  if b.isZero then none
  else if a.isZero then some zero
  else
    (greatestScale (fun t => quotientAt a b t < limit) maxScale).map fun t =>
      normalize ⟨a.coefficient.sign * b.coefficient.sign * quotientAt a b t, t⟩

/-- The larger of `d` and zero. -/
def max0 (d : Decimal) : Decimal := if d.coefficient < 0 then zero else d

/-! ## Rounding to wire integers -/

/-- The integer nearest to `d`, and of two the one farther from zero. -/
def round (d : Decimal) : Int :=
  d.coefficient.sign * roundHalfUp d.coefficient.natAbs (Nat.pow 10 d.scale)

/-- The price nearest to `d`. -/
def toPrice (d : Decimal) : Int := IntRange.signed64.clamp d.round

/-- The confidence nearest to `d`; a negative average has none, and gives zero. -/
def toConf (d : Decimal) : Nat := (IntRange.unsigned64.clamp d.round).toNat

end Decimal

end PriceFeed
