import PriceFeed.Hub
import PriceFeed.Text.Blank

/-!
# Settings

Settings are read from environment variables. Only the path of the catalog must be given. A number
is an optional plus sign and ASCII digits, in range; a variable that holds anything else, or is no
text, counts as not set.
-/

namespace PriceFeed

/-- The text of a variable; `none` if it is not set or holds no text. -/
abbrev Environment := String → Option String

/-- Why there are no settings. -/
inductive SettingsError where
  | missingVariable (name : String)
  | emptyValue (name : String)
  deriving DecidableEq, Repr

def SettingsError.message : SettingsError → String
  | missingVariable name => s!"missing required environment variable: {name}"
  | emptyValue name => s!"environment variable {name} cannot be empty"

/-- An identity that publishers present. It does not show in texts. -/
structure Credential where
  key : String
  deriving DecidableEq

def Credential.redacted (_ : Credential) : String :=
  "PublisherCredential \x7b key: \"[REDACTED]\" \x7d"

structure Settings where
  catalogPath : String
  /-- The identity of sessions that present none. -/
  defaultPublisher : Option Credential := none
  gatewayPort : Nat := 8910
  healthPort : Nat := 8082
  policy : Policy := {}
  /-- How many messages a mailbox holds. -/
  outboundCapacity : Nat := 1024
  /-- How many commits the queue holds. -/
  commitCapacity : Nat := 4096
  schedule : SchedulePolicy := .updateDriven

/-- Reads a number of a range. -/
def readUnsigned? (range : IntRange) (text : String) : Option Nat :=
  let digits :=
    match text.toList with
    | '+' :: rest => rest
    | rest => rest
  if digits.isEmpty || !digits.all Char.isDigit then none
  else
    let n := Nat.ofDigitChars 10 digits 0
    if (n : Int) ∈ range then some n else none

namespace Settings

/-- The variables that settings are read from. -/
def variableNames : List String :=
  ["ORACLE_CATALOG_PATH", "ORACLE_PUBLISHER_KEY", "ORACLE_WS_PORT", "ORACLE_HEALTH_PORT",
    "ORACLE_CONF_DIVISOR", "ORACLE_MAX_QUOTE_LAG", "ORACLE_TWAP_HALF_LIFE", "ORACLE_TWAP_MAX_GAP",
    "ORACLE_OUTBOUND_QUEUE_CAPACITY", "ORACLE_COMMIT_QUEUE_CAPACITY", "ORACLE_SCHED_INTERVAL_MS"]

/-- The number in a variable, or a default. -/
def number (env : Environment) (range : IntRange) (name : String) (default : Nat) : Nat :=
  ((env name).bind (readUnsigned? range)).getD default

/-- A period of more than zero milliseconds sets a clock. -/
def readSchedule (env : Environment) : SchedulePolicy :=
  match number env .unsigned64 "ORACLE_SCHED_INTERVAL_MS" 0 with
  | 0 => .updateDriven
  | period => .interval period

def ofEnvironment (env : Environment) : Except SettingsError Settings :=
  match env "ORACLE_CATALOG_PATH" with
  | none => .error (.missingVariable "ORACLE_CATALOG_PATH")
  | some catalogPath =>
    if Text.allBlank catalogPath then .error (.emptyValue "ORACLE_CATALOG_PATH")
    else
      let base : Settings := { catalogPath }
      let policy := base.policy
      .ok { base with
        defaultPublisher := ((env "ORACLE_PUBLISHER_KEY").filter (· ≠ "")).map .mk
        gatewayPort := number env .unsigned16 "ORACLE_WS_PORT" base.gatewayPort
        healthPort := number env .unsigned16 "ORACLE_HEALTH_PORT" base.healthPort
        policy := {
          confDivisor := number env .unsigned64 "ORACLE_CONF_DIVISOR" policy.confDivisor
          maxQuoteLag := number env .unsigned64 "ORACLE_MAX_QUOTE_LAG" policy.maxQuoteLag
          decay := {
            halfLife := number env .unsigned64 "ORACLE_TWAP_HALF_LIFE" policy.decay.halfLife
            maxGap := number env .unsigned64 "ORACLE_TWAP_MAX_GAP" policy.decay.maxGap } }
        outboundCapacity :=
          number env .unsigned64 "ORACLE_OUTBOUND_QUEUE_CAPACITY" base.outboundCapacity
        commitCapacity := number env .unsigned64 "ORACLE_COMMIT_QUEUE_CAPACITY" base.commitCapacity
        schedule := readSchedule env }

end Settings

/-! ## Telemetry -/

/-- Where spans are exported to. -/
structure TelemetrySettings where
  enabled : Bool
  endpoint : String
  serviceName : String

/-- Export is on unless it is switched off by the word false in letters of any case. -/
def TelemetrySettings.ofEnvironment (env : Environment) : TelemetrySettings where
  enabled := (env "OTEL_ENABLED").all fun v => v.toList.map Char.toLower ≠ "false".toList
  endpoint := (env "OTEL_EXPORTER_OTLP_ENDPOINT").getD "http://localhost:4317"
  serviceName := (env "OTEL_SERVICE_NAME").getD "price-oracle"

end PriceFeed
