import PriceFeed.Range

/-!
# Quotes

A publisher quotes a price, a confidence and a status. The band of a quote is the interval of
half-width `conf` around the price. A quote counts as trading only when its publisher says so and
its confidence is narrow enough for its price.
-/

namespace PriceFeed

/-- Trading status of a quote or of an aggregate. -/
inductive Status where
  | unknown
  | trading
  | halted
  deriving DecidableEq, Repr

namespace Status

def name : Status → String
  | unknown => "unknown"
  | trading => "trading"
  | halted => "halted"

def ofName? (s : String) : Option Status :=
  if s = "unknown" then some unknown
  else if s = "trading" then some trading
  else if s = "halted" then some halted
  else none

theorem ofName?_eq_some_iff {s : String} {status : Status} :
    ofName? s = some status ↔ s = status.name := by
  unfold ofName?
  constructor
  · intro h
    split at h
    · cases h; assumption
    · split at h
      · cases h; assumption
      · split at h
        · cases h; assumption
        · cases h
  · rintro rfl
    cases status <;> decide

end Status

/-- A price and the half-width of the interval around it. -/
structure Band where
  price : Int
  conf : Nat
  deriving DecidableEq, Repr

/-- Both ends of the band are prices. -/
def Band.Fits (b : Band) : Prop :=
  b.price - b.conf ∈ IntRange.signed64 ∧ b.price + b.conf ∈ IntRange.signed64

instance (b : Band) : Decidable b.Fits :=
  inferInstanceAs (Decidable (_ ∧ _))

/-- What a publisher submits for an instrument. -/
structure Quote where
  price : Int
  conf : Nat
  status : Status
  deriving DecidableEq, Repr

namespace Quote

def band (q : Quote) : Band := ⟨q.price, q.conf⟩

/-- The confidence is at most the `divisor`-th part of the price; a divisor of zero asks nothing. -/
def Narrow (q : Quote) (divisor : Nat) : Prop := divisor = 0 ∨ q.conf ≤ q.price.natAbs / divisor

instance (q : Quote) (divisor : Nat) : Decidable (q.Narrow divisor) :=
  inferInstanceAs (Decidable (_ ∨ _))

/-- The status a quote counts with: a halt stands, trading needs a narrow band, and all else is
unknown. -/
def effectiveStatus (q : Quote) (divisor : Nat) : Status :=
  match q.status with
  | .halted => .halted
  | .trading => if q.Narrow divisor then .trading else .unknown
  | .unknown => .unknown

theorem effectiveStatus_eq_trading_iff {q : Quote} {divisor : Nat} :
    q.effectiveStatus divisor = .trading ↔ q.status = .trading ∧ q.Narrow divisor := by
  unfold effectiveStatus
  cases q.status <;> simp

end Quote

end PriceFeed
