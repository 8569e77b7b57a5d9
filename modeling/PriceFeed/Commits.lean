import PriceFeed.Store

/-!
# The commit queue

Changed aggregates are committed to a store behind a bounded queue. Putting a commit in never
waits: one that does not fit is dropped and counted. A worker takes commits out in order and passes
each to the store, which may refuse it; a refusal is counted and affects no other commit. The worker
ends when it is cancelled, without what is still queued, or when no handle is left and the queue is
empty.

    (q.enqueue c).1 ↔ ¬ q.stopped ∧ q.pending.length < q.room            (enqueue_eq_true_iff)
-/

namespace PriceFeed

structure CommitQueue where
  capacity : Nat
  pending : List Commit := []
  cancelled : Bool := false
  handleGone : Bool := false
  /-- The worker has ended. -/
  stopped : Bool := false
  /-- Commits that found the queue full. -/
  dropped : Nat := 0
  /-- Commits that the store refused. -/
  failed : Nat := 0
  deriving Repr

namespace CommitQueue

/-- At least one commit fits. -/
def room (q : CommitQueue) : Nat := max 1 q.capacity

/-- Commits are still taken. -/
def isRunning (q : CommitQueue) : Bool := !q.stopped

/-- Puts a commit in, if the worker runs and there is room. -/
def enqueue (q : CommitQueue) (c : Commit) : Bool × CommitQueue :=
  if q.stopped then (false, q)
  else if q.pending.length < q.room then (true, { q with pending := q.pending ++ [c] })
  else (false, { q with dropped := q.dropped + 1 })

/-- Tells the worker to end. -/
def cancel (q : CommitQueue) : CommitQueue := { q with cancelled := true }

/-- The last handle goes away. -/
def dropHandle (q : CommitQueue) : CommitQueue := { q with handleGone := true }

/-- The worker ends, and what is queued is lost. -/
def stop (q : CommitQueue) : CommitQueue := { q with stopped := true, pending := [] }

/-- One step of the worker over a store that takes the commits `accepts` names. -/
def step (accepts : Commit → Bool) (q : CommitQueue) : Option CommitAttempt × CommitQueue :=
  if q.stopped then (none, q)
  else if q.cancelled then (none, q.stop)
  else
    match q.pending with
    | c :: rest =>
      (some ⟨c, accepts c⟩,
        { q with pending := rest, failed := q.failed + if accepts c then 0 else 1 })
    | [] => (none, if q.handleGone then q.stop else q)

def steps (accepts : Commit → Bool) : Nat → CommitQueue → List CommitAttempt × CommitQueue
  | 0, q => ([], q)
  | n + 1, q =>
    let (attempt, q) := q.step accepts
    let (attempts, q) := steps accepts n q
    (attempt.toList ++ attempts, q)

/-- Lets the worker run until it has nothing to do. -/
def flush (accepts : Commit → Bool) (q : CommitQueue) : List CommitAttempt × CommitQueue :=
  q.steps accepts (q.pending.length + 1)

/-! ## Lemmas -/

theorem enqueue_eq_true_iff {q : CommitQueue} {c : Commit} :
    (q.enqueue c).1 = true ↔ ¬ q.stopped ∧ q.pending.length < q.room := by
  unfold enqueue
  split
  · simp [*]
  · split <;> simp [*]

theorem pending_enqueue (q : CommitQueue) (c : Commit) :
    (q.enqueue c).2.pending = if (q.enqueue c).1 then q.pending ++ [c] else q.pending := by
  unfold enqueue
  split
  · simp
  · split <;> simp

end CommitQueue

end PriceFeed
