import PriceFeed.Hub

/-!
# Health reports

Four pages tell how the hub is: a report, a sign of life, a sign of readiness and the metrics. A hub
without instruments is unhealthy; one whose commit worker has ended is degraded, for it takes no
submissions. Only a healthy hub is ready.
-/

namespace PriceFeed

open Json

inductive HealthStatus where
  | healthy
  | degraded
  | unhealthy
  deriving DecidableEq, Repr

def HealthStatus.name : HealthStatus → String
  | healthy => "healthy"
  | degraded => "degraded"
  | unhealthy => "unhealthy"

structure HealthReport where
  status : HealthStatus
  version : String
  instruments : Nat
  sessions : Nat
  subscriptions : Subscriptions.Stats

namespace HealthReport

def statusOf (instruments : Nat) (ready : Bool) : HealthStatus :=
  if instruments = 0 then .unhealthy else if ready then .healthy else .degraded

def ofHub (h : Hub) (version : String) : HealthReport where
  status := statusOf h.registry.size h.isReady
  version := version
  instruments := h.registry.size
  sessions := h.openSessions.length
  subscriptions := h.subscriptions.stats

/-- The members of the report that do not tell the time. -/
def members (r : HealthReport) : List (String × Value) :=
  [("status", .string r.status.name),
    ("version", .string r.version),
    ("instruments", .int r.instruments),
    ("sessions", .int r.sessions),
    ("subscriptions", .object [
      ("total", .int r.subscriptions.subscriptions),
      ("sessions", .int r.subscriptions.sessions),
      ("targets", .int r.subscriptions.targets)])]

end HealthReport

/-! ## Pages -/

/-- What a page shows. -/
inductive PageBody where
  | report (r : HealthReport)
  | text (s : String)

structure Page where
  status : Nat
  contentType : String
  body : PageBody

namespace Page

def plain (status : Nat) (s : String) : Page := ⟨status, "text/plain; charset=utf-8", .text s⟩

/-- An answer without a body. -/
def bare (status : Nat) : Page := ⟨status, "", .text ""⟩

/-- The page of a path, and none for a path that has no page. -/
def ofPath? (h : Hub) (version path : String) : Option Page :=
  let report := HealthReport.ofHub h version
  match path with
  | "/health" =>
    some ⟨if report.status = .unhealthy then 503 else 200, "application/json", .report report⟩
  | "/healthz" => some (plain 200 "OK")
  | "/readyz" =>
    some (if report.status = .healthy then plain 200 "READY" else plain 503 "NOT READY")
  | "/metrics" => some ⟨503, "text/plain", .text "Metrics not initialized"⟩
  | _ => none

/-- The path of a request target, without the query. -/
def pathOf (target : String) : String := String.ofList (target.toList.takeWhile (· ≠ '?'))

/-- Answers a request. A page can be read, or asked for without its body; no other method is
allowed. -/
def respond (h : Hub) (version method target : String) : Page :=
  match ofPath? h version (pathOf target) with
  | none => bare 404
  | some page =>
    if method = "GET" then page
    else if method = "HEAD" then { page with body := .text "" }
    else bare 405

end Page

/-! ## Servers -/

/-- Why a server ends. -/
inductive ServerError where
  | bindFailed (port : Nat) (reason : String)
  | serverFailed (reason : String)
  deriving DecidableEq, Repr

def ServerError.message : ServerError → String
  | bindFailed port reason => s!"failed to bind to port {port}: {reason}"
  | serverFailed reason => s!"server error: {reason}"

end PriceFeed
