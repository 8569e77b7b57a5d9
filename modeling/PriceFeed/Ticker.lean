/-!
# Tickers

A ticker fires once every period. Where several periods pass at once it fires for the first of them
and then waits for the next multiple of the period since it started; it does so only if it is late
by more than its tolerance, and otherwise fires for each of them. A period longer than `longestWait`
counts as that long.
-/

namespace PriceFeed

structure Ticker where
  /-- Milliseconds between ticks. A ticker with none between them never fires. -/
  period : Nat
  /-- When the next tick is due. -/
  due : Nat

namespace Ticker

/-- Ticks at most this late count as on time. -/
def tolerance : Nat := 5

/-- Thirty years of 365 days, in milliseconds. -/
def longestWait : Nat := 30 * 365 * 24 * 60 * 60 * 1000

/-- A ticker started at `now`, with the tick of that moment behind it. -/
def start (now period : Nat) : Ticker :=
  let period := min period longestWait
  ⟨period, now + period⟩

/-- The number of ticks that fire one by one up to `now`, and the ticker after them. -/
def elapse (t : Ticker) (now : Nat) : Nat × Ticker :=
  if t.period = 0 ∨ now < t.due then (0, t)
  else
    let n := (now - t.due) / t.period + 1
    (n, { t with due := t.due + n * t.period })

/-- The number of ticks that fire at `now`, and the ticker after them. -/
def fire (t : Ticker) (now : Nat) : Nat × Ticker :=
  if t.period = 0 ∨ now ≤ t.due + tolerance then t.elapse now
  else (1, { t with due := now + t.period - (now - t.due) % t.period })

end Ticker

end PriceFeed
