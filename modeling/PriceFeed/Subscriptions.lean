/-!
# Subscriptions

A subscription joins a session to one channel of one instrument. The table keeps the live
subscriptions and two relations to their ids, from targets for notification and from sessions for
cleaning up. Ids are handed out in ascending order and never again; an id is reserved first and
becomes live when it is activated.
-/

namespace PriceFeed

/-- What a subscription is notified of. -/
inductive Channel where
  | price
  | schedule
  deriving DecidableEq, Repr

def Channel.name : Channel → String
  | price => "price"
  | schedule => "price_sched"

structure Subscription where
  id : Nat
  session : Nat
  account : String
  channel : Channel
  deriving DecidableEq, Repr

/-- The instrument and channel subscribed to. -/
abbrev Target := String × Channel

def Subscription.target (s : Subscription) : Target := (s.account, s.channel)

structure Subscriptions where
  nextId : Nat := 0
  live : List Subscription := []
  /-- The ids of each target. -/
  targets : List (Target × Nat) := []
  /-- The ids of each session. -/
  owners : List (Nat × Nat) := []

namespace Subscriptions

/-- Hands out the next id. -/
def reserve (t : Subscriptions) : Nat × Subscriptions :=
  (t.nextId, { t with nextId := t.nextId + 1 })

/-- Makes a subscription live. It takes the place of one with its id. -/
def activate (t : Subscriptions) (s : Subscription) : Subscriptions :=
  { t with
    live := s :: t.live.filter (·.id ≠ s.id)
    targets := t.targets.insert (s.target, s.id)
    owners := t.owners.insert (s.session, s.id) }

/-- Reserves an id and activates it at once. -/
def add (t : Subscriptions) (session : Nat) (account : String) (channel : Channel) :
    Nat × Subscriptions :=
  let (id, t) := t.reserve
  (id, t.activate ⟨id, session, account, channel⟩)

/-- Ascending by id. -/
def byId (l : List Subscription) : List Subscription := l.mergeSort fun a b => a.id ≤ b.id

/-- The ids of a session, ascending. -/
def sessionIds (t : Subscriptions) (session : Nat) : List Nat :=
  ((t.owners.filter (·.1 = session)).map (·.2)).mergeSort (· ≤ ·)

/-- Removes the subscriptions of a session and returns them. -/
def removeAll (t : Subscriptions) (session : Nat) : List Subscription × Subscriptions :=
  let ids := t.sessionIds session
  let removed := t.live.filter (·.id ∈ ids)
  (byId removed,
    { t with
      live := t.live.filter (·.id ∉ ids)
      targets := t.targets.filter (· ∉ removed.map fun s => (s.target, s.id))
      owners := t.owners.filter (·.1 ≠ session) })

def get? (t : Subscriptions) (id : Nat) : Option Subscription := t.live.find? (·.id = id)

/-- The ids of a target, ascending. -/
def targetIds (t : Subscriptions) (target : Target) : List Nat :=
  ((t.targets.filter (·.1 = target)).map (·.2)).mergeSort (· ≤ ·)

/-- The live subscriptions to a target, ascending by id. -/
def subscribersOf (t : Subscriptions) (target : Target) : List Subscription :=
  (t.targetIds target).filterMap t.get?

/-- The live subscriptions on a channel of any instrument, ascending by id. -/
def onChannel (t : Subscriptions) (channel : Channel) : List Subscription :=
  byId (t.live.filter (·.channel = channel))

/-! ## Counts -/

structure Stats where
  subscriptions : Nat
  sessions : Nat
  targets : Nat
  deriving DecidableEq, Repr

/-- How many subscriptions are live, and of how many sessions and to how many targets. -/
def stats (t : Subscriptions) : Stats where
  subscriptions := t.live.length
  sessions := (t.owners.map (·.1)).eraseDups.length
  targets := (t.targets.map (·.1)).eraseDups.length

end Subscriptions

end PriceFeed
