import ChangeRelay.Json.Value
import ChangeRelay.Time.Instant

/-!
# Health of streams

How each stream fares, in words, and a summary over all of them.
-/

namespace ChangeRelay

/-- How a stream fares. -/
inductive StreamHealth where
  /-- Reading its checkpoint and subscribing after it. -/
  | connecting
  | streaming
  /-- Waiting to reconnect after `attempt` failed sessions in a row. -/
  | backoff (attempt : Nat) (nextRetry : Instant)
  /-- Halted, at a change if one is known, until an operator steps in. -/
  | paused (seq : Option UInt64) (reason : String)
  | stopped
  /-- Its definition is invalid. -/
  | failed (reason : String)
deriving DecidableEq, Repr

namespace StreamHealth

def label : StreamHealth → String
  | .connecting => "connecting"
  | .streaming => "streaming"
  | .backoff _ _ => "backoff"
  | .paused _ _ => "paused"
  | .stopped => "stopped"
  | .failed _ => "failed"

/-- Whether an operator has to step in. -/
def needsAttention : StreamHealth → Bool
  | .paused _ _ | .failed _ => true
  | _ => false

def text : StreamHealth → String
  | .connecting => "Connecting"
  | .streaming => "Streaming"
  | .backoff attempt next =>
    let time := next.text "+00:00"
    s!"Backoff(attempt={attempt}, next_retry_at={time})"
  | .paused (some seq) reason => s!"Paused(seq={seq}): {reason}"
  | .paused none reason => s!"Paused: {reason}"
  | .stopped => "Stopped"
  | .failed reason => s!"Failed: {reason}"

/-- What there is to say beyond the label. -/
def detail? : StreamHealth → Option Json.Value
  | .backoff attempt next =>
    some (.ofFields [("attempt", .int attempt), ("next_retry_at", .string (next.text "Z"))])
  | .paused seq reason =>
    some (.ofFields [("sequence_number", (seq.map Json.Value.ofWord).getD .null),
      ("reason", .string reason)])
  | .failed reason => some (.string reason)
  | _ => none

def toValue (h : StreamHealth) : Json.Value :=
  .ofFields (("state", .string h.label) :: (h.detail?.map fun d => ("detail", d)).toList)

end StreamHealth

/-- The health of all streams, by consumer. -/
abbrev HealthCheck := List (String × StreamHealth)

namespace HealthCheck

def total (c : HealthCheck) : Nat := c.length

def streaming (c : HealthCheck) : Nat := c.countP fun p => p.2.label = "streaming"

def inBackoff (c : HealthCheck) : Nat := c.countP fun p => p.2.label = "backoff"

def attention (c : HealthCheck) : Nat := c.countP fun p => p.2.needsAttention

/-- Whether no stream needs an operator. -/
def healthy (c : HealthCheck) : Bool := c.attention = 0

def toValue (c : HealthCheck) : Json.Value :=
  .ofFields [
    ("streams", .array (c.map fun p =>
      .ofFields [("consumer_id", .string p.1), ("health", p.2.toValue)])),
    ("streams_total", .int c.total), ("streams_streaming", .int c.streaming),
    ("streams_backoff", .int c.inBackoff), ("streams_attention", .int c.attention),
    ("healthy", .bool c.healthy)]

end HealthCheck

end ChangeRelay
