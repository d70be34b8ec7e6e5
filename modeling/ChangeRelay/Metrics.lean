import ChangeRelay.Json.Value
import ChangeRelay.Number.Shortest

/-!
# Metrics

What the relay reports about itself. A reading names its series by a metric and labels; the table
collects readings: counters add up, gauges keep the last value, histograms keep all.
-/

namespace ChangeRelay.Metrics

/-- What a reading does to its series. -/
inductive Measure where
  | count (step : Nat)
  | gauge (value : Double)
  | observe (value : Double)
  /-- A duration that depends on the wall clock: only that it was taken counts. -/
  | timing
deriving DecidableEq

/-- One reading. -/
structure Reading where
  metric : String
  labels : List (String × String)
  measure : Measure
deriving DecidableEq

/-- What is known of a series. -/
inductive Series where
  | counter (total : Nat)
  | gauge (value : Double)
  | histogram (values : List Double)
  | timings (count : Nat)
deriving DecidableEq

/-- Series by name. -/
abbrev Table := List (String × Series)

/-- The name of a series, with its labels in order. -/
def Reading.series (r : Reading) : String :=
  let labels := (Assoc.ofList r.labels).map fun p => p.1 ++ "=" ++ p.2
  r.metric ++ "\x7b" ++ String.intercalate "," labels ++ "\x7d"

/-- A series after one more reading. -/
def Series.extend : Option Series → Measure → Series
  | some (.counter n), .count k => .counter (n + k)
  | some (.histogram vs), .observe v => .histogram (vs ++ [v])
  | some (.timings n), .timing => .timings (n + 1)
  | _, .count k => .counter k
  | _, .gauge v => .gauge v
  | _, .observe v => .histogram [v]
  | _, .timing => .timings 1

def Table.record (t : Table) (r : Reading) : Table :=
  Assoc.insert r.series (Series.extend (Assoc.find? r.series t) r.measure) t

def Table.recordAll (t : Table) (rs : List Reading) : Table := rs.foldl Table.record t

/-- Values are written positionally and without a trailing point. -/
def valueStyle : Decimal.Style := ⟨none, false⟩

def valueText (x : Double) : String := String.ofList (x.render valueStyle)

/-- A series in a report: gauges and observations as text. -/
def Series.toValue : Series → Json.Value
  | .counter n => .int n
  | .gauge x => .string (valueText x)
  | .histogram xs => .array (xs.map fun x => .string (valueText x))
  | .timings n => .ofFields [("count", .int n)]

/-- All series by name. -/
def Table.toValue (t : Table) : Json.Value := .ofFields (t.map fun p => (p.1, p.2.toValue))

/-- A connection attempt against a backend. -/
def connection (name : String) (success : Bool) : List Reading :=
  [⟨"replicator_connections_total",
    [("backend", name), ("status", if success then "success" else "failure")], .count 1⟩]

/-- Where a connection stands. -/
def connectionState (name state : String) : List Reading :=
  [⟨"replicator_connection_state", [("backend", name), ("state", state)], .gauge .one⟩]

def eventsReceived (consumer : String) (n : Nat) : List Reading :=
  [⟨"replicator_events_received_total", [("consumer_id", consumer)], .count n⟩]

/-- A change dropped before its triggers. -/
def eventsSkipped (consumer reason : String) : List Reading :=
  [⟨"replicator_events_skipped_total", [("consumer_id", consumer), ("reason", reason)], .count 1⟩]

/-- The size of a batch that is about to be committed. -/
def batch (consumer : String) (events intents : Nat) : List Reading :=
  [⟨"replicator_batch_events", [("consumer_id", consumer)], .observe (.ofNat events)⟩,
    ⟨"replicator_batch_intents", [("consumer_id", consumer)], .observe (.ofNat intents)⟩]

/-- How a commit ended. -/
def commit (consumer outcome : String) : List Reading :=
  [⟨"replicator_commits_total", [("consumer_id", consumer), ("outcome", outcome)], .count 1⟩,
    ⟨"replicator_commit_duration_seconds", [("consumer_id", consumer)], .timing⟩]

def checkpoint (consumer : String) (seq : UInt64) : List Reading :=
  [⟨"replicator_checkpoint_sequence", [("consumer_id", consumer)], .gauge (.ofNat seq.toNat)⟩]

def triggerError (consumer stage : String) : List Reading :=
  [⟨"replicator_trigger_errors_total", [("consumer_id", consumer), ("stage", stage)], .count 1⟩]

def sequenceGap (consumer : String) : List Reading :=
  [⟨"replicator_sequence_gaps_total", [("consumer_id", consumer)], .count 1⟩]

/-- A wait before reconnecting. -/
def backoff (consumer : String) (attempt : Nat) (seconds : Double) : List Reading :=
  [⟨"replicator_backoffs_total", [("consumer_id", consumer)], .count 1⟩,
    ⟨"replicator_backoff_attempt", [("consumer_id", consumer)], .gauge (.ofNat attempt)⟩,
    ⟨"replicator_backoff_delay_seconds", [("consumer_id", consumer)], .observe seconds⟩]

/-- The numbers that stand for the states of a stream; any other word is -1. -/
def stateValue (state : String) : Double :=
  match state with
  | "connecting" => .ofNat 0
  | "streaming" => .ofNat 1
  | "backoff" => .ofNat 2
  | "paused" => .ofNat 3
  | "failed" => .ofNat 4
  | "stopped" => .ofNat 5
  | _ => .neg (.ofNat 1)

def streamState (consumer state : String) : List Reading :=
  [⟨"replicator_stream_state", [("consumer_id", consumer)], .gauge (stateValue state)⟩]

def activeStreams (n : Nat) : List Reading :=
  [⟨"replicator_active_streams", [], .gauge (.ofNat n)⟩]

/-- How a call through a circuit breaker ended. -/
def circuitCall (circuit outcome : String) : List Reading :=
  [⟨"replicator_circuit_calls_total", [("circuit", circuit), ("outcome", outcome)], .count 1⟩]

end ChangeRelay.Metrics
