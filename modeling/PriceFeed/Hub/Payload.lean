import PriceFeed.Hub.Call

/-!
# Handling payloads

A payload yields the posts it causes in the order they are handed over: first the notifications of
updates in it, then the reply, then the first notification of each subscription it makes. A
subscription becomes live with that first notification, so it misses nothing and sees nothing before
its reply.
-/

namespace PriceFeed

namespace Hub

/-- Makes a subscription live and returns its first notification. -/
def activate (h : Hub) (session : Nat) (a : Activation) : List Post × Hub :=
  match h.board.read a.account with
  | .error _ => ([], h)
  | .ok aggregate =>
    let subscription : Subscription := ⟨a.id, session, a.account, a.channel⟩
    let message : Message :=
      match a.channel with
      | .price => .price a.id aggregate
      | .schedule => .schedule a.id
    ([⟨session, message⟩],
      updateGauges { h with subscriptions := h.subscriptions.activate subscription })

def activateAll (h : Hub) (session : Nat) : List Activation → List Post × Hub
  | [] => ([], h)
  | a :: rest =>
    let (posts, h) := h.activate session a
    let (more, h) := activateAll h session rest
    (posts ++ more, h)

/-- The reply to a payload and what answering it has done. -/
def reply (h : Hub) (publisher : Option String) (text : String) : Reply × Progress :=
  match Payload.decode text with
  | .ok (.single item) =>
    let (response, p) := answer { hub := h } publisher item
    (.single response, p)
  | .ok (.batch items) =>
    let (responses, p) := answerAll { hub := h } publisher items
    (.batch responses, p)
  | .error e => (.single ⟨.null, .error e⟩, { hub := h.count (.errors e) })

/-- The posts a payload causes, in order, and the hub before they are delivered. -/
def process (h : Hub) (session : Nat) (text : String) : List Post × Hub :=
  let (reply, p) := h.reply ((h.session? session).bind (·.publisher)) text
  let (first, hub) := p.hub.activateAll session p.pending
  (p.posts ++ ⟨session, .reply reply⟩ :: first, hub)

/-- Handles a payload of a session. -/
def handlePayload (h : Hub) (session : Nat) (text : String) : Hub :=
  let (posts, h) := h.process session text
  h.deliverAll posts

/-- Answers a payload that is no text. -/
def handleUnreadable (h : Hub) (session : Nat) : Hub :=
  (h.count (.errors .parseError)).deliver
    ⟨session, .reply (.single ⟨.null, .error .parseError⟩)⟩

/-! ## Ticks -/

/-- The posts of a tick of the schedule, ascending by subscription id. -/
def tickPosts (h : Hub) : List Post :=
  (h.subscriptions.onChannel .schedule).map fun s => ⟨s.session, .schedule s.id⟩

/-- Notifies all schedule subscriptions and returns how many there are. -/
def tick (h : Hub) : Nat × Hub := (h.tickPosts.length, h.deliverAll h.tickPosts)

def ticks : Nat → Hub → Hub
  | 0, h => h
  | n + 1, h => ticks n h.tick.2

/-- Tells the commit worker to end. -/
def stopCommits (h : Hub) : Hub := { h with commits := h.commits.map (·.cancel) }

end Hub

end PriceFeed
