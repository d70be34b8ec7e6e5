import ChangeRelay.Checkpoint
import ChangeRelay.Circuit
import ChangeRelay.Retry

/-!
# Settings of streams

How a consumer works its stream, and what all streams of a supervisor share.
-/

namespace ChangeRelay

/-- How a batch is filled. -/
structure BatchLimits where
  maxEvents : Nat := 1
  /-- How long the first change of a batch waits for others. -/
  linger : Duration := .ofMillis 50
deriving DecidableEq, Repr

/-- Small batches that do not wait long. -/
def BatchLimits.testing : BatchLimits := { maxEvents := 4, linger := .ofMillis 5 }

/-- How a consumer works. -/
structure ConsumerSettings where
  /-- How long the feed may be silent. -/
  heartbeatTimeout : Duration := .ofSeconds 30
  batch : BatchLimits := {}
  retry : Retry := .daemon
  rateLimit : Option RateLimit := none
deriving DecidableEq

/-- Short times and no jitter. -/
def ConsumerSettings.testing : ConsumerSettings :=
  { heartbeatTimeout := .ofSeconds 3, retry := .testing }

/-- What all streams of a supervisor share. -/
structure SupervisorSettings where
  /-- Where checkpoints are kept. -/
  checkpoints : String := Checkpoint.defaultBucket
  consumer : ConsumerSettings := {}
  circuit : Circuit.Config := {}
  /-- How long a stream that is stopped may finish its commit. -/
  drainTimeout : Duration := .ofSeconds 10
deriving DecidableEq

/-- Short times and no jitter. -/
def SupervisorSettings.testing : SupervisorSettings :=
  { consumer := .testing, circuit := .testing, drainTimeout := .ofSeconds 5 }

end ChangeRelay
