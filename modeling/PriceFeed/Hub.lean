import PriceFeed.Commits
import PriceFeed.Mailbox
import PriceFeed.Metrics
import PriceFeed.Rpc.Message
import PriceFeed.Subscriptions

/-!
# The hub

The hub holds the books, the subscriptions and the mailboxes of all sessions. What an operation has
to tell the sessions is a list of posts. Which posts there are depends on books, subscriptions and
commits alone; mailboxes and the counts of deliveries come after (`deliverAll`) and feed nothing
back.
-/

namespace PriceFeed

/-- When schedule subscriptions are notified. -/
inductive SchedulePolicy where
  /-- At every change of their instrument's aggregate. -/
  | updateDriven
  /-- By a clock, every so many milliseconds. -/
  | interval (period : Nat)
  deriving DecidableEq, Repr

/-- A connection to the hub. -/
structure Session where
  id : Nat
  publisher : Option String
  mailbox : Mailbox Message
  /-- Not yet closed at the hub. -/
  listed : Bool := true

/-- A message and the session it is for. -/
structure Post where
  session : Nat
  message : Message

structure Hub where
  registry : Registry
  board : Board
  schedule : SchedulePolicy
  /-- How many messages a mailbox holds. -/
  capacity : Nat
  commits : Option CommitQueue
  subscriptions : Subscriptions := {}
  /-- All sessions ever opened. -/
  sessions : List Session := []
  nextSession : Nat := 1
  metrics : Metrics := {}

/-- What kind of notification a message is, if it is one. -/
def Message.noticeKind? : Message → Option NoticeKind
  | .reply _ => none
  | .price _ _ => some .price
  | .schedule _ => some .schedule

namespace Hub

/-- A hub over a registry. -/
def create (registry : Registry) (policy : Policy) (schedule : SchedulePolicy) (capacity : Nat)
    (commits : Option CommitQueue) : Hub :=
  { registry, board := .ofRegistry registry policy, schedule, capacity, commits }

/-! ## Sessions -/

def session? (h : Hub) (id : Nat) : Option Session := h.sessions.find? (·.id = id)

def modifySession (h : Hub) (id : Nat) (f : Session → Session) : Hub :=
  { h with sessions := h.sessions.map fun s => if s.id = id then f s else s }

/-- The sessions that are not yet closed. -/
def openSessions (h : Hub) : List Session := h.sessions.filter (·.listed)

/-- Submissions are taken. -/
def isReady (h : Hub) : Bool := h.commits.all (·.isRunning)

def count (h : Hub) (s : Series) : Hub := { h with metrics := h.metrics.count s }

def updateGauges (h : Hub) : Hub :=
  { h with
    metrics := (h.metrics.set .sessions h.openSessions.length).set .subscriptions
      h.subscriptions.stats.subscriptions }

/-- Opens a session and returns its id. -/
def openSession (h : Hub) (publisher : Option String) : Nat × Hub :=
  let session : Session := { id := h.nextSession, publisher, mailbox := { capacity := h.capacity } }
  (h.nextSession,
    updateGauges { h with sessions := h.sessions ++ [session], nextSession := h.nextSession + 1 })

/-- Closes the mailbox of a session. -/
def hangUp (h : Hub) (id : Nat) : Hub :=
  h.modifySession id fun s => { s with mailbox := s.mailbox.cancel }

/-- Closes a session and drops its subscriptions; to close it again changes nothing. -/
def closeSession (h : Hub) (id : Nat) : Hub :=
  let listed := (h.session? id).any (·.listed)
  let h := h.hangUp id
  if listed then
    let h := h.modifySession id fun s => { s with listed := false }
    updateGauges { h with subscriptions := (h.subscriptions.removeAll id).2 }
  else h

/-! ## Delivery -/

/-- Hands a message to the mailbox of a session, and counts a mailbox that it closes. -/
def handOver (h : Hub) (session : Session) (m : Message) : Delivery × Hub :=
  let (delivery, mailbox) := session.mailbox.deliver m
  let h := h.modifySession session.id fun s => { s with mailbox }
  (delivery, if delivery = .overflow then h.count .sessionsOverflowed else h)

/-- Delivers a post. A reply goes to its session in any case, a notification only while the session
is not closed; notifications are counted. -/
def deliver (h : Hub) (p : Post) : Hub :=
  match p.message.noticeKind? with
  | none =>
    match h.session? p.session with
    | none => h
    | some s => (h.handOver s p.message).2
  | some kind =>
    match (h.session? p.session).filter (·.listed) with
    | none => h.count (.dropped kind .sessionClosed)
    | some s =>
      match h.handOver s p.message with
      | (.queued, h) => h.count (.sent kind)
      | (.overflow, h) => h.count (.dropped kind .overflow)
      | (.closed, h) => h.count (.dropped kind .sessionClosed)

def deliverAll (h : Hub) (posts : List Post) : Hub := posts.foldl deliver h

/-! ## Receiving -/

/-- How many messages wait in a session's mailbox. -/
def waiting (h : Hub) (id : Nat) : Nat := ((h.session? id).map (·.mailbox.queue.length)).getD 0

/-- Takes at most `count` messages out of a session's mailbox. -/
def receive (h : Hub) (id count : Nat) : List Message × Hub :=
  match h.session? id with
  | none => ([], h)
  | some s =>
    let (messages, mailbox) := s.mailbox.receiveMany count
    (messages, h.modifySession id fun s => { s with mailbox })

/-- Takes everything out of the mailboxes of the sessions `ids`, and returns the messages of those
that had any. -/
def receiveFrom (h : Hub) : List Nat → List (Nat × List Message) × Hub
  | [] => ([], h)
  | id :: ids =>
    let (messages, h) := h.receive id (h.waiting id)
    let (rest, h) := receiveFrom h ids
    (if messages.isEmpty then rest else (id, messages) :: rest, h)

/-- Takes everything out of all mailboxes. -/
def receiveAll (h : Hub) : List (Nat × List Message) × Hub :=
  h.receiveFrom (h.sessions.map (·.id))

/-- The receiver of a session goes away. -/
def dropReceiver (h : Hub) (id : Nat) : Hub :=
  h.modifySession id fun s => { s with mailbox := s.mailbox.dropReceiver }

/-- All metrics, those of the commit queue included. -/
def allMetrics (h : Hub) : Metrics :=
  match h.commits with
  | none => h.metrics
  | some q => (h.metrics.add .commitsDropped q.dropped).add .commitsFailed q.failed

end Hub

end PriceFeed
