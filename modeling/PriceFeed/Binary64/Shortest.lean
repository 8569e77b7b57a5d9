import PriceFeed.Binary64

/-!
# The shortest decimal that reads back

The reals that round to a number form an interval. Its shortest decimal is the one with the fewest
digits inside, and of those the nearest to the number: on each decimal grid, from one digit to
seventeen, only the two neighbours of the number can be the nearest point inside.
-/

namespace PriceFeed.Binary64

/-- A decimal `digits * 10 ^ power` as digits and the exponent of its first digit. -/
structure Scientific where
  digits : List Char
  exponent : Int
  deriving DecidableEq, Repr

/-- Two whole numbers whose quotient is the magnitude of `x` over `10 ^ power`. -/
def overTens (x : Binary64) (power : Int) : Nat × Nat :=
  (x.mantissa <<< x.exponent.toNat * Nat.pow 10 (-power).toNat,
    Nat.pow 10 power.toNat <<< (-x.exponent).toNat)

/-- Whether `n * 10 ^ power` lies where it rounds to `x`, for positive `x`. The interval reaches
half a unit of the mantissa up and down, but a quarter down from a power of two. -/
def roundsTo (x : Binary64) (n : Nat) (power : Int) : Bool :=
  let point := 4 * n * (Nat.pow 10 power.toNat <<< (-x.exponent).toNat)
  let unit := Nat.pow 10 (-power).toNat <<< x.exponent.toNat
  let below := if x.mantissa = 1 <<< 52 && minExponent < x.exponent then 1 else 2
  let low := (4 * x.mantissa - below) * unit
  let high := (4 * x.mantissa + 2) * unit
  if x.mantissa % 2 = 0 then low ≤ point && point ≤ high else low < point && point < high

/-- The greatest `e` with `10 ^ e` at most the magnitude of `x`, for positive `x`. -/
def decimalOrder (x : Binary64) : Int :=
  let (n, d) := x.overTens 0
  if d ≤ n then (Nat.toDigits 10 (n / d)).length - 1
  else
    -- With `n < d` the first digit of `d / n` shows the order up to one.
    let k := (Nat.toDigits 10 (d / n)).length
    if n * Nat.pow 10 (k - 1) < d then -k else 1 - k

/-- The point of the grid with `count` digits that reads back, if there is one: the nearer of the
two neighbours of `x`, or else the other. -/
def onGrid? (x : Binary64) (count : Nat) : Option (Nat × Int) :=
  let power := x.decimalOrder - (count - 1)
  let (n, d) := x.overTens power
  let nearer := roundHalfEven n d
  let other := if nearer = n / d then n / d + 1 else n / d
  if x.roundsTo nearer power then some (nearer, power)
  else if x.roundsTo other power then some (other, power)
  else none

/-- The shortest decimal of a positive number. -/
def shortest (x : Binary64) : Scientific :=
  let (n, power) := ((List.range 17).findSome? fun i => x.onGrid? (i + 1)).getD (0, 0)
  let digits := Nat.toDigits 10 n
  let kept := (digits.reverse.dropWhile (· == '0')).reverse
  ⟨kept, power + digits.length - 1⟩

end PriceFeed.Binary64
