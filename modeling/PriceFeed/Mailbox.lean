/-!
# Mailboxes

A mailbox is the bounded queue of messages to one peer. Its sender puts messages in without ever
waiting: where one does not fit, the mailbox closes instead. A closed mailbox takes no more
messages, and those already in it can still be received. Either side may go away.

    the queue after b.deliver m is b.queue ++ [m] if m is queued, else b.queue   (queue_deliver)
-/

namespace PriceFeed

/-- What became of a message handed to a mailbox. -/
inductive Delivery where
  | queued
  | overflow
  | closed
  deriving DecidableEq, Repr

def Delivery.name : Delivery → String
  | queued => "queued"
  | overflow => "overflow"
  | closed => "closed"

/-- What a peer finds when it looks for a message. -/
inductive Receipt (μ : Type) where
  | message (m : μ)
  | empty
  | disconnected
  deriving DecidableEq, Repr

structure Mailbox (μ : Type) where
  capacity : Nat
  queue : List μ := []
  cancelled : Bool := false
  senderGone : Bool := false
  receiverGone : Bool := false
  deriving Repr

namespace Mailbox

variable {μ : Type}

/-- At least one message fits. -/
def room (b : Mailbox μ) : Nat := max 1 b.capacity

/-- No message is taken any more. -/
def isClosed (b : Mailbox μ) : Bool := b.cancelled || b.receiverGone

/-- Hands in a message. -/
def deliver (b : Mailbox μ) (m : μ) : Delivery × Mailbox μ :=
  if b.isClosed then (.closed, b)
  else if b.queue.length < b.room then (.queued, { b with queue := b.queue ++ [m] })
  else (.overflow, { b with cancelled := true })

/-- Takes the oldest message out. -/
def receive (b : Mailbox μ) : Receipt μ × Mailbox μ :=
  match b.queue with
  | m :: rest => (.message m, { b with queue := rest })
  | [] => (if b.senderGone then .disconnected else .empty, b)

/-- Takes at most `count` messages out. -/
def receiveMany (b : Mailbox μ) (count : Nat) : List μ × Mailbox μ :=
  (b.queue.take count, { b with queue := b.queue.drop count })

/-- Closes the mailbox, from either side. -/
def cancel (b : Mailbox μ) : Mailbox μ := { b with cancelled := true }

/-- The sender goes away. -/
def dropSender (b : Mailbox μ) : Mailbox μ := { b with senderGone := true }

/-- The receiver goes away, and what it has not received is lost. -/
def dropReceiver (b : Mailbox μ) : Mailbox μ := { b with queue := [], receiverGone := true }

/-! ## Lemmas -/

theorem queue_deliver (b : Mailbox μ) (m : μ) :
    (b.deliver m).2.queue = if (b.deliver m).1 = .queued then b.queue ++ [m] else b.queue := by
  unfold deliver
  split
  · simp
  · split <;> simp

end Mailbox

end PriceFeed
