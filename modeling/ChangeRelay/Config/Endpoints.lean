import ChangeRelay.Config.Settings
import ChangeRelay.Feed.Memory
import ChangeRelay.Feed.StreamFeed
import ChangeRelay.Store.Cells

/-!
# Sources and destinations

Where a relay reads changes and where it writes records. Both are opened without connecting: what
can go wrong here is only a URL that is none.
-/

namespace ChangeRelay.Config

/-- Where changes come from. -/
inductive Source where
  /-- A change log published to a Redis stream. -/
  | redis (url streamKey blockTimeout : String) (batchSize : Nat)
  /-- An empty log in memory. -/
  | memory
deriving DecidableEq, Repr

/-- A change log that was opened. -/
inductive OpenSource where
  | redis (feed : Feed.StreamFeed)
  | memory (feed : Feed.Memory)

def OpenSource.name : OpenSource → String
  | .redis _ => "redis"
  | .memory _ => "memory"

namespace Source

def defaultStreamKey : String := "directory:changes"
def defaultBlockTimeout : String := "5s"
def defaultBatchSize : Nat := 100

/-- The fault of a connection that cannot even be tried. -/
def badUrl (e : Redis.ConnectFault) : StreamFault := .config e.message

/-- Checks a source. An idle read has to end before a consumer gives up on the feed. -/
def validate (s : Source) (heartbeat : Duration) : Except StreamFault Unit :=
  match s with
  | .memory => .ok ()
  | .redis url streamKey blockTimeout _ => do
    demand (url ≠ "" && streamKey ≠ "") "source url and stream_key are required"
    let block ← checkDuration "source.block_timeout" blockTimeout
    demand (block.nanos < heartbeat.nanos) (s!"source.block_timeout ({blockTimeout}) must be " ++
      s!"shorter than settings.consumer.heartbeat_timeout ({heartbeat.written})")

/-- Opens a source for a client that accepts some URLs; a connection is made when it is first
needed. -/
def openBy (accepts : String → Bool) (s : Source) (retry : Retry) :
    Except StreamFault OpenSource :=
  match s with
  | .memory => .ok (.memory {})
  | .redis url streamKey blockTimeout batchSize =>
    match Redis.Connector.ofUrl accepts "source" url retry with
    | .error e => .error (badUrl e)
    | .ok connector =>
      let blockTimeout := durationOr blockTimeout (.ofSeconds 5)
      .ok (.redis { stream := { key := streamKey, blockTimeout, batchSize }, connector })

/-- Opens a source. -/
def build (s : Source) (retry : Retry) : Except StreamFault OpenSource :=
  s.openBy Redis.isUrl retry

def toValue : Source → Json.Value
  | .memory => .ofFields [("type", .string "memory")]
  | .redis url streamKey blockTimeout batchSize =>
    .ofFields [("type", .string "redis"), ("url", .string url), ("stream_key", .string streamKey),
      ("block_timeout", .string blockTimeout), ("batch_size", .int batchSize)]

end Source

/-- Where records go. -/
inductive Destination where
  /-- A database file. -/
  | sqlite (path : String)
  /-- Redis hashes, two per bucket. -/
  | redis (url keyPrefix : String)
  /-- Memory, which does not outlive the process. -/
  | memory
deriving DecidableEq, Repr

/-- A destination that was opened. -/
inductive OpenDestination where
  | sqlite (path : String)
  | redis (connector : Redis.Connector) (cells : Store.Cells)
  | memory

def OpenDestination.name : OpenDestination → String
  | .sqlite _ => "sqlite"
  | .redis _ _ => "redis"
  | .memory => "memory"

namespace Destination

def defaultPrefix : String := "replicator"

def validate : Destination → Except StreamFault Unit
  | .sqlite path => demand (path ≠ "") "destination path is required"
  | .redis url _ => demand (url ≠ "") "destination url is required"
  | .memory => .ok ()

/-- Opens a destination for a client that accepts some URLs. A database file is only named here. -/
def openBy (accepts : String → Bool) (d : Destination) (retry : Retry) :
    Except StreamFault OpenDestination :=
  match d with
  | .sqlite path => .ok (.sqlite path)
  | .memory => .ok .memory
  | .redis url keyPrefix =>
    match Redis.Connector.ofUrl accepts "destination" url retry with
    | .error e => .error (.config e.toStore.message)
    | .ok connector => .ok (.redis connector ⟨keyPrefix⟩)

/-- Opens a destination. -/
def build (d : Destination) (retry : Retry) : Except StreamFault OpenDestination :=
  d.openBy Redis.isUrl retry

def toValue : Destination → Json.Value
  | .memory => .ofFields [("type", .string "memory")]
  | .sqlite path => .ofFields [("type", .string "sqlite"), ("path", .string path)]
  | .redis url keyPrefix =>
    .ofFields [("type", .string "redis"), ("url", .string url), ("prefix", .string keyPrefix)]

end Destination

end ChangeRelay.Config
