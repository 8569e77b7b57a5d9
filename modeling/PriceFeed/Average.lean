import PriceFeed.Decimal

/-!
# Time-weighted averages

An average weighs each observation by the inverse of its confidence, and lets the weight of all
earlier ones decay with the number of submissions in between. It is kept as a decimal numerator
and denominator. The first observation seeds it; so does one that follows a gap longer than the
policy allows, or whose fold does not fit the decimals.

    weight conf            = 1 / conf, and 1 for a confidence of zero
    decay gap halfLife     = max 0 (1 - gap * ln 2 / halfLife), and 0 for a half-life of zero
    numer ← numer * decay + value * weight,   denom ← denom * decay + weight
-/

namespace PriceFeed

/-- How fast earlier observations lose weight. -/
structure DecayPolicy where
  /-- Submissions after which a weight has halved. -/
  halfLife : Nat := 5921
  /-- The longest gap, in submissions, that does not start the average afresh. -/
  maxGap : Nat := 4145
  deriving DecidableEq, Repr

/-- The natural logarithm of two to 28 places. -/
def ln2 : Decimal := ⟨6931471805599453094172321215, 28⟩

/-- The weight of an observation. -/
def weight (conf : Nat) : Decimal :=
  if conf = 0 then .one else (Decimal.one.div? (.ofInt conf)).getD .one

/-- What a weight keeps over `gap` submissions, if the arithmetic fits. -/
def decay? (gap halfLife : Nat) : Option Decimal :=
  if halfLife = 0 then some .zero
  else do
    let lost ← (← ln2.mul? (.ofInt gap)).div? (.ofInt halfLife)
    return (← Decimal.one.sub? lost).max0

/-- A weighted sum of observations and the sum of their weights. -/
structure Average where
  numer : Decimal := .zero
  denom : Decimal := .zero
  seeded : Bool := false
  deriving DecidableEq, Repr

namespace Average

/-- The weighted mean; zero before any observation. -/
def value (a : Average) : Decimal :=
  if a.denom.isZero then .zero else (a.numer.div? a.denom).getD .zero

/-- The average of one observation. -/
def seed (value weight : Decimal) : Average :=
  match value.mul? weight with
  | some numer => ⟨numer, weight, true⟩
  | none => ⟨value, .one, true⟩

/-- The sums with one more observation, if they fit. -/
def fold? (a : Average) (value weight decay : Decimal) : Option Average := do
  let numer ← (← a.numer.mul? decay).add? (← value.mul? weight)
  let denom ← (← a.denom.mul? decay).add? weight
  if denom.isZero then none else some { a with numer, denom }

/-- The average with one more observation, `gap` submissions after the one before. -/
def observe (a : Average) (policy : DecayPolicy) (value : Decimal) (conf gap : Nat) : Average :=
  let w := weight conf
  let folded :=
    if a.seeded && gap ≤ policy.maxGap then
      (decay? gap policy.halfLife).bind (a.fold? value w)
    else none
  folded.getD (seed value w)

end Average

end PriceFeed
