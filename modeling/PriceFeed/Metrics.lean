import PriceFeed.Rpc.Request

/-!
# Metrics

Counters and gauges by series. A series is shown only once it has been touched.

    (m.add s n).get s = m.get s + n                                      (get_add_self)
    t ≠ s → (m.add s n).get t = m.get t                                  (get_add_of_ne)
-/

namespace PriceFeed

/-- The two kinds of notification. -/
inductive NoticeKind where
  | price
  | schedule
  deriving DecidableEq, Repr

def NoticeKind.label : NoticeKind → String
  | price => "notify_price"
  | schedule => "notify_price_sched"

/-- Why a notification did not get into a mailbox. -/
inductive DropReason where
  | sessionClosed
  | overflow
  deriving DecidableEq, Repr

def DropReason.label : DropReason → String
  | sessionClosed => "session_closed"
  | overflow => "overflow"

inductive Series where
  | requests (method : Method)
  | errors (error : RpcError)
  | updates (changed : Bool)
  | submissions
  | sent (kind : NoticeKind)
  | dropped (kind : NoticeKind) (reason : DropReason)
  | sessionsOverflowed
  | sessions
  | subscriptions
  | commitsDropped
  | commitsFailed
  deriving DecidableEq, Repr

/-- A series name with its labels. -/
def labelled (name : String) (labels : List (String × String)) : String :=
  name ++ "\x7b" ++ ",".intercalate (labels.map fun (k, v) => k ++ "=\"" ++ v ++ "\"") ++ "\x7d"

def Series.name : Series → String
  | requests m => labelled "price_oracle_requests_total" [("method", m.name)]
  | errors e => labelled "price_oracle_errors_total" [("code", toString e.code)]
  | updates changed =>
    labelled "price_oracle_updates_total" [("outcome", if changed then "changed" else "unchanged")]
  | submissions => "price_oracle_submit_seconds_count"
  | sent k => labelled "price_oracle_notifications_sent_total" [("kind", k.label)]
  | dropped k r =>
    labelled "price_oracle_notifications_dropped_total" [("kind", k.label), ("reason", r.label)]
  | sessionsOverflowed => "price_oracle_sessions_overflowed_total"
  | sessions => "price_oracle_sessions"
  | subscriptions => "price_oracle_subscriptions"
  | commitsDropped => "price_oracle_commit_queue_dropped_total"
  | commitsFailed => "price_oracle_commit_failures_total"

/-- The touched series and their values. -/
structure Metrics where
  entries : List (Series × Nat) := []

namespace Metrics

/-- The value of a series; zero if it has not been touched. -/
def get (m : Metrics) (s : Series) : Nat := ((m.entries.find? (·.1 = s)).map (·.2)).getD 0

/-- Sets a gauge. -/
def set (m : Metrics) (s : Series) (value : Nat) : Metrics :=
  ⟨(s, value) :: m.entries.filter (·.1 ≠ s)⟩

/-- Adds to a counter; nothing added does not touch it. -/
def add (m : Metrics) (s : Series) (count : Nat) : Metrics :=
  if count = 0 then m else m.set s (m.get s + count)

/-- Counts one event. -/
def count (m : Metrics) (s : Series) : Metrics := m.add s 1

/-! ## Lemmas -/

@[simp] theorem get_set_self (m : Metrics) (s : Series) (value : Nat) :
    (m.set s value).get s = value := by
  simp [get, set]

theorem get_set_of_ne {s t : Series} (h : t ≠ s) (m : Metrics) (value : Nat) :
    (m.set s value).get t = m.get t := by
  have hf : (m.entries.filter (·.1 ≠ s)).find? (·.1 = t) = m.entries.find? (·.1 = t) := by
    rw [List.find?_filter]
    congr 1
    funext e
    by_cases he : e.1 = t
    · simp [he, h]
    · simp [he]
  simp only [get, set]
  rw [List.find?_cons_of_neg (by simpa using h.symm), hf]

@[simp] theorem get_add_self (m : Metrics) (s : Series) (count : Nat) :
    (m.add s count).get s = m.get s + count := by
  unfold add
  split
  · next h => simp [h]
  · simp

theorem get_add_of_ne {s t : Series} (h : t ≠ s) (m : Metrics) (count : Nat) :
    (m.add s count).get t = m.get t := by
  unfold add
  split
  · rfl
  · exact get_set_of_ne h ..

end Metrics

end PriceFeed
