import PriceFeed.Average
import PriceFeed.Consensus
import PriceFeed.Registry

/-!
# Instrument books

The book of an instrument keeps the last quote of each publisher and the aggregate made of them.
Submissions are numbered from one; a quote is fresh while at most `maxQuoteLag` submissions have
come after it, and valid if it is fresh, counts as trading and has a band that fits. Enough valid
quotes make a trading aggregate, which is their consensus together with two time-weighted averages.
Otherwise only the status changes, to halted if every fresh quote is a halt.

A publisher that repeats its quote while the valid bands stay as they were when the averages last
moved does not move them again.
-/

namespace PriceFeed

/-- How quotes become aggregates. -/
structure Policy where
  /-- A trading quote needs a confidence of at most this part of its price; zero asks nothing. -/
  confDivisor : Nat := 20
  /-- Submissions after which a silent publisher's quote is stale. -/
  maxQuoteLag : Nat := 25
  decay : DecayPolicy := {}
  deriving DecidableEq, Repr

/-- The published state of an instrument. -/
structure Aggregate where
  price : Int := 0
  conf : Nat := 0
  status : Status := .unknown
  /-- Time-weighted average price. -/
  twap : Int := 0
  /-- Time-weighted average confidence. -/
  twac : Nat := 0
  deriving DecidableEq, Repr

/-- A quote and the number of the submission that brought it. -/
structure StandingQuote extends Quote where
  seq : Nat
  deriving DecidableEq, Repr

/-- The state of one instrument. -/
structure Book where
  instrument : Instrument
  quotes : Keyed StandingQuote := []
  /-- The number of submissions so far. -/
  seq : Nat := 0
  aggregate : Aggregate := {}
  twap : Average := {}
  twac : Average := {}
  /-- The submission at which the averages last moved. -/
  lastTrading : Option Nat := none
  /-- The valid bands at that submission. -/
  contributors : List Band := []

namespace Book

def account (b : Book) : String := b.instrument.account

/-- The quotes that are not stale, by publisher. -/
def fresh (b : Book) (policy : Policy) : List Quote :=
  (b.quotes.filter fun e => b.seq - e.2.seq ≤ policy.maxQuoteLag).map (·.2.toQuote)

/-- A quote counts towards the consensus. -/
def Counts (policy : Policy) (q : Quote) : Prop :=
  q.effectiveStatus policy.confDivisor = .trading ∧ q.band.Fits

instance (policy : Policy) (q : Quote) : Decidable (Counts policy q) :=
  inferInstanceAs (Decidable (_ ∧ _))

/-- The bands of the fresh quotes that count, by publisher. -/
def valid (b : Book) (policy : Policy) : List Band :=
  ((b.fresh policy).filter (Counts policy)).map Quote.band

/-- How many valid quotes make a trading aggregate. -/
def quorum (b : Book) : Nat := max 1 b.instrument.minPublishers

/-- The consensus of the valid quotes, if there are enough of them. -/
def consensus? (b : Book) (policy : Policy) : Option Band :=
  if b.quorum ≤ (b.valid policy).length then consensus (b.valid policy) else none

/-- The status without a consensus. -/
def idleStatus (b : Book) (policy : Policy) : Status :=
  let fresh := b.fresh policy
  if !fresh.isEmpty && fresh.all (·.status = .halted) then .halted else .unknown

/-- Whether `publisher` has this very quote standing. -/
def repeats (b : Book) (publisher : String) (quote : Quote) : Bool :=
  (b.quotes.get? publisher).any (·.toQuote = quote)

/-- The book with the next submission recorded. -/
def record (b : Book) (publisher : String) (quote : Quote) : Book :=
  { b with
    seq := b.seq + 1
    quotes := b.quotes.put publisher { quote with seq := b.seq + 1 } }

/-- The book with a consensus folded into the averages. -/
def fold (b : Book) (policy : Policy) (c : Band) : Book :=
  let gap := (b.lastTrading.map (b.seq - ·)).getD 0
  let twap := b.twap.observe policy.decay (.ofInt c.price) c.conf gap
  let twac := b.twac.observe policy.decay (.ofInt c.conf) c.conf gap
  { b with
    aggregate := ⟨c.price, c.conf, .trading, twap.value.toPrice, twac.value.toConf⟩
    twap, twac
    lastTrading := some b.seq
    contributors := b.valid policy }

/-- The book with its aggregate made anew; `repeated` tells that the last submission repeated a
quote. -/
def refresh (b : Book) (policy : Policy) (repeated : Bool) : Book :=
  match b.consensus? policy with
  | none => { b with aggregate := { b.aggregate with status := b.idleStatus policy } }
  | some c =>
    if repeated ∧ b.aggregate.status = .trading ∧ b.valid policy = b.contributors then
      { b with aggregate := { b.aggregate with price := c.price, conf := c.conf } }
    else b.fold policy c

/-- The book after a submission by a publisher of the instrument. -/
def submit (b : Book) (policy : Policy) (publisher : String) (quote : Quote) : Book :=
  (b.record publisher quote).refresh policy (b.repeats publisher quote)

end Book

end PriceFeed
