import ChangeRelay.Stream.Settings
import ChangeRelay.Text.Blank
import ChangeRelay.Time.Written
import ChangeRelay.Fault
import ChangeRelay.Json.Value

/-!
# Configured settings

The settings of a configuration file. Durations stay the texts they were written as: checking a
section reads them, and using a section falls back to a default where one cannot be read. A section
that was checked needs no fallback.
-/

namespace ChangeRelay.Config

/-- Reads a duration of a checked field. -/
def checkDuration (field text : String) : Except StreamFault Duration :=
  match Duration.read text with
  | .ok d => .ok d
  | .error e => .error (.config s!"{field}: invalid duration '{text}': {e.message}")

/-- Reads a duration, or falls back. -/
def durationOr (text : String) (fallback : Duration) : Duration :=
  match Duration.read text with
  | .ok d => d
  | .error _ => fallback

/-- Refuses unless a condition holds. -/
def demand (condition : Bool) (text : String) : Except StreamFault Unit :=
  if condition then .ok () else .error (.config text)

/-- How streams are consumed. -/
structure Consumer where
  heartbeatTimeout : String := "30s"
  maxBatchEvents : Nat := 1
  batchLinger : String := "50ms"
  rateLimitEnabled : Bool := false
  rateLimitPerSec : Nat := 1000
  rateLimitBurst : Nat := 100
deriving DecidableEq

namespace Consumer

def heartbeat (c : Consumer) : Duration := durationOr c.heartbeatTimeout (.ofSeconds 30)

/-- A batch holds at least one change. -/
def batch (c : Consumer) : BatchLimits :=
  { maxEvents := if c.maxBatchEvents = 0 then 1 else c.maxBatchEvents
    linger := durationOr c.batchLinger (.ofMillis 50) }

def rateLimit (c : Consumer) : Option RateLimit :=
  if c.rateLimitEnabled then some ⟨c.rateLimitBurst, c.rateLimitPerSec⟩ else none

def validate (c : Consumer) : Except StreamFault Unit := do
  let _ ← checkDuration "consumer.heartbeat_timeout" c.heartbeatTimeout
  let _ ← checkDuration "consumer.batch_linger" c.batchLinger
  demand (c.maxBatchEvents ≠ 0) "consumer.max_batch_events must be at least 1"
  demand (!(c.rateLimitEnabled && (c.rateLimitPerSec = 0 || c.rateLimitBurst = 0)))
    "rate limit values must be positive"

def toValue (c : Consumer) : Json.Value :=
  .ofFields [("heartbeat_timeout", .string c.heartbeatTimeout),
    ("max_batch_events", .int c.maxBatchEvents), ("batch_linger", .string c.batchLinger),
    ("rate_limit_enabled", .bool c.rateLimitEnabled),
    ("rate_limit_per_sec", .int c.rateLimitPerSec), ("rate_limit_burst", .int c.rateLimitBurst)]

end Consumer

/-- How a stream waits before it reconnects. -/
structure Backoff where
  initialDelay : String := "1s"
  maxDelay : String := "5m"
  factor : Double := .ofNat 2
  jitter : Double := Retry.fifth
  connectionTimeout : String := "30s"
deriving DecidableEq

/-- A number as a JSON value; one that is not finite is null. -/
def doubleValue (x : Double) : Json.Value := if x.isFinite then .double x else .null

namespace Backoff

/-- Reconnecting goes on for ever. -/
def retry (b : Backoff) : Retry :=
  { Retry.daemon with
    initialDelay := durationOr b.initialDelay Retry.daemon.initialDelay
    maxDelay := durationOr b.maxDelay Retry.daemon.maxDelay
    factor := b.factor
    jitter := b.jitter
    connectionTimeout := durationOr b.connectionTimeout Retry.daemon.connectionTimeout }

def validate (b : Backoff) : Except StreamFault Unit := do
  let initial ← checkDuration "backoff.initial_delay" b.initialDelay
  let most ← checkDuration "backoff.max_delay" b.maxDelay
  let _ ← checkDuration "backoff.connection_timeout" b.connectionTimeout
  demand (initial.nanos ≤ most.nanos) "backoff.initial_delay must not exceed backoff.max_delay"
  demand (Double.le (.ofNat 1) b.factor) "backoff.backoff_factor must be >= 1.0"
  demand (Double.le (.ofNat 0) b.jitter && b.jitter.le (.ofNat 1))
    "backoff.jitter_factor must be within 0.0..=1.0"

def toValue (b : Backoff) : Json.Value :=
  .ofFields [("initial_delay", .string b.initialDelay), ("max_delay", .string b.maxDelay),
    ("backoff_factor", doubleValue b.factor), ("jitter_factor", doubleValue b.jitter),
    ("connection_timeout", .string b.connectionTimeout)]

end Backoff

/-- The circuit breaker around commits. -/
structure Breaker where
  failureThreshold : Nat := 5
  successThreshold : Nat := 2
  recoveryTimeout : String := "30s"
deriving DecidableEq

namespace Breaker

def circuit (b : Breaker) : Circuit.Config :=
  { failureThreshold := b.failureThreshold
    successThreshold := b.successThreshold
    recoveryTimeout := durationOr b.recoveryTimeout (.ofSeconds 30) }

def validate (b : Breaker) : Except StreamFault Unit := do
  let _ ← checkDuration "circuit.recovery_timeout" b.recoveryTimeout
  demand (b.failureThreshold ≠ 0 && b.successThreshold ≠ 0) "circuit thresholds must be positive"

def toValue (b : Breaker) : Json.Value :=
  .ofFields [("failure_threshold", .int b.failureThreshold),
    ("success_threshold", .int b.successThreshold),
    ("recovery_timeout", .string b.recoveryTimeout)]

end Breaker

/-- The settings section. -/
structure Settings where
  checkpoints : String := Checkpoint.defaultBucket
  consumer : Consumer := {}
  backoff : Backoff := {}
  breaker : Breaker := {}
  /-- How often a running relay reports its health. -/
  healthLogInterval : String := "60s"
  drainTimeout : String := "10s"
deriving DecidableEq

namespace Settings

def healthInterval (s : Settings) : Duration := durationOr s.healthLogInterval (.ofSeconds 60)

def drain (s : Settings) : Duration := durationOr s.drainTimeout (.ofSeconds 10)

def validate (s : Settings) : Except StreamFault Unit := do
  demand (!Text.isBlankText s.checkpoints) "checkpoint_bucket must not be empty"
  let _ ← checkDuration "settings.health_log_interval" s.healthLogInterval
  let _ ← checkDuration "settings.drain_timeout" s.drainTimeout
  s.consumer.validate
  s.backoff.validate
  s.breaker.validate

/-- What a supervisor works with. -/
def supervisor (s : Settings) : SupervisorSettings :=
  { checkpoints := s.checkpoints
    consumer := {
      heartbeatTimeout := s.consumer.heartbeat
      batch := s.consumer.batch
      retry := s.backoff.retry
      rateLimit := s.consumer.rateLimit }
    circuit := s.breaker.circuit
    drainTimeout := s.drain }

def toValue (s : Settings) : Json.Value :=
  .ofFields [("checkpoint_bucket", .string s.checkpoints), ("consumer", s.consumer.toValue),
    ("backoff", s.backoff.toValue), ("circuit", s.breaker.toValue),
    ("health_log_interval", .string s.healthLogInterval),
    ("drain_timeout", .string s.drainTimeout)]

end Settings

end ChangeRelay.Config
