import PriceFeed.Hub.Payload
import PriceFeed.Settings
import PriceFeed.Ticker

/-!
# The service

A service is a hub with what runs beside it: the worker that commits to a store, and tickers that
notify schedule subscriptions. None runs by itself. The worker takes steps when it is told to, in
any order with the operations of the hub, and time passes when it is told to.

A ticker that is started takes the place of the one before it, which goes on: only the ticker
started last can be stopped.
-/

namespace PriceFeed

structure Service where
  hub : Hub
  store : Store := {}
  /-- What the worker has passed to the store, in order. -/
  attempts : List CommitAttempt := []
  /-- Milliseconds since the start. -/
  now : Nat := 0
  /-- The ticker started last, until it is stopped. -/
  ticker : Option Ticker := none
  /-- Tickers whose place a later one has taken, in the order they were started. -/
  displaced : List Ticker := []

namespace Service

/-- Applies an operation of the hub. -/
def onHub (s : Service) (f : Hub → Hub) : Service := { s with hub := f s.hub }

/-! ## The commit worker -/

/-- Runs the worker, if there is one, and passes on what it takes out of the queue. -/
def work (s : Service) (run : CommitQueue → List CommitAttempt × CommitQueue) : Service :=
  match s.hub.commits with
  | none => s
  | some q =>
    let (attempts, q) := run q
    { s with
      hub := { s.hub with commits := some q }
      store := s.store.absorb attempts
      attempts := s.attempts ++ attempts }

/-- One step of the worker over a store that takes the commits `accepts` names. -/
def stepWorker (s : Service) (accepts : Commit → Bool) : Service := s.work (·.steps accepts 1)

/-- Lets the worker run until it has nothing to do. -/
def flush (s : Service) (accepts : Commit → Bool) : Service := s.work (·.flush accepts)

/-! ## The clock -/

/-- The tickers that run. -/
def tickers (s : Service) : List Ticker := s.displaced ++ s.ticker.toList

def startTicker (s : Service) (period : Nat) : Service :=
  { s with ticker := some (.start s.now period), displaced := s.tickers }

/-- Stops the ticker started last. -/
def stopTicker (s : Service) : Service := { s with ticker := none }

/-- Moves the clock on, with the ticks that `move` finds due at the new time. -/
def pass (s : Service) (ms : Nat) (move : Ticker → Nat → Nat × Ticker) : Service :=
  let now := s.now + ms
  let after (t : Ticker) : Ticker := (move t now).2
  { s with
    now
    ticker := s.ticker.map after
    displaced := s.displaced.map after
    hub := s.hub.ticks (s.tickers.foldl (fun n t => n + (move t now).1) 0) }

/-- Time passes, up to the longest wait: every tick due in it fires at its moment. -/
def sleep (s : Service) (ms : Nat) : Service := s.pass (min ms Ticker.longestWait) Ticker.elapse

/-- The clock leaps: what has become due fires late. -/
def jump (s : Service) (ms : Nat) : Service := s.pass ms Ticker.fire

/-- A service by the settings over a registry, with its ticker started if it has a schedule. -/
def create (settings : Settings) (registry : Registry) : Service :=
  let s : Service :=
    { hub := Hub.create registry settings.policy settings.schedule settings.outboundCapacity
        (some { capacity := settings.commitCapacity }) }
  match settings.schedule with
  | .updateDriven => s
  | .interval period => s.startTicker period

end Service

end PriceFeed
