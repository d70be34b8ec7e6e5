import ChangeRelay.Assoc
import ChangeRelay.Batch
import ChangeRelay.Change
import ChangeRelay.Checkpoint
import ChangeRelay.Circuit
import ChangeRelay.Cli.Request
import ChangeRelay.Config.Configuration
import ChangeRelay.Config.Document
import ChangeRelay.Config.Endpoints
import ChangeRelay.Config.Settings
import ChangeRelay.Config.Startup
import ChangeRelay.Digest.Sha256
import ChangeRelay.Digest.XxHash64
import ChangeRelay.Dn
import ChangeRelay.Fault
import ChangeRelay.Feed.ChangeStream
import ChangeRelay.Feed.Item
import ChangeRelay.Feed.Memory
import ChangeRelay.Feed.Reading
import ChangeRelay.Feed.StreamFeed
import ChangeRelay.Intent
import ChangeRelay.Json.Decode
import ChangeRelay.Json.Printer
import ChangeRelay.Json.Reader
import ChangeRelay.Json.Value
import ChangeRelay.Main
import ChangeRelay.Metrics
import ChangeRelay.Number.Double
import ChangeRelay.Number.Power
import ChangeRelay.Number.Shortest
import ChangeRelay.Query
import ChangeRelay.Redis.Connector
import ChangeRelay.Redis.Reply
import ChangeRelay.Retry
import ChangeRelay.Store.Backend
import ChangeRelay.Store.Cells
import ChangeRelay.Store.File
import ChangeRelay.Store.Memory
import ChangeRelay.Store.Record
import ChangeRelay.Store.Script
import ChangeRelay.Stream.Consumer
import ChangeRelay.Stream.Definition
import ChangeRelay.Stream.Health
import ChangeRelay.Stream.Relay
import ChangeRelay.Stream.Settings
import ChangeRelay.Stream.Supervisor
import ChangeRelay.Stream.Wakeup
import ChangeRelay.Text.Blank
import ChangeRelay.Text.Bytes
import ChangeRelay.Text.CaseTable
import ChangeRelay.Text.Decimal
import ChangeRelay.Text.Lowercase
import ChangeRelay.Text.PrintTable
import ChangeRelay.Text.Quoted
import ChangeRelay.Text.Ranges
import ChangeRelay.Time.Duration
import ChangeRelay.Time.Instant
import ChangeRelay.Time.Written
import ChangeRelay.Trigger.Changelog
import ChangeRelay.Trigger.Mirror
import ChangeRelay.Trigger.Pipeline
import ChangeRelay.Trigger.Registry
import ChangeRelay.Writer
import ChangeRelay.Yaml.Node
import ChangeRelay.Yaml.Resolve
import ChangeRelay.Yaml.Scalar
import ChangeRelay.Yaml.Token
import ChangeRelay.Zstd.Bits
import ChangeRelay.Zstd.Block
import ChangeRelay.Zstd.Frame
import ChangeRelay.Zstd.Fse
import ChangeRelay.Zstd.Huffman
import ChangeRelay.Proofs.Checkpoint.Resolve
import ChangeRelay.Proofs.Checkpoint.Proposal
import ChangeRelay.Proofs.Checkpoint.Race
import ChangeRelay.Proofs.Checkpoint.Commit
import ChangeRelay.Proofs.Assoc
import ChangeRelay.Proofs.Intent
import ChangeRelay.Proofs.Trigger.Directory
import ChangeRelay.Proofs.Stream.Member
import ChangeRelay.Proofs.Stream.Group
import ChangeRelay.Proofs.Change
import ChangeRelay.Proofs.Feed.Log
import ChangeRelay.Proofs.Feed.Reading
import ChangeRelay.Proofs.Stream.Following
import ChangeRelay.Proofs.Stream.World
import ChangeRelay.Proofs.Stream.Replication
import ChangeRelay.Proofs.Stream.Gap
import ChangeRelay.Proofs.Store.Batch
import ChangeRelay.Proofs.Checkpoint.Folding
import ChangeRelay.Proofs.Store.Isolation
import ChangeRelay.Proofs.Text.RoundTrip
import ChangeRelay.Proofs.Feed.Stream
import ChangeRelay.Proofs.Feed.Entry
import ChangeRelay.Proofs.Json.RoundTrip
import ChangeRelay.Proofs.Zstd.Stored
import ChangeRelay.Proofs.Feed.Published
import ChangeRelay.Proofs.Stream.Standing
import ChangeRelay.Proofs.Stream.Halt
import ChangeRelay.Proofs.Stream.Leaving
import ChangeRelay.Proofs.Stream.Faults
import ChangeRelay.Proofs.Stream.Redelivery
import ChangeRelay.Proofs.Stream.Calls
import ChangeRelay.Proofs.Stream.Supervision
import ChangeRelay.Proofs.Stream.Registered
import ChangeRelay.Proofs.Stream.Shutdown
import ChangeRelay.Proofs.Stream.Health
import ChangeRelay.Proofs.Stream.Reactions
import ChangeRelay.Proofs.Stream.Backoff
import ChangeRelay.Proofs.Stream.Retries
import ChangeRelay.Proofs.Stream.Sharing
import ChangeRelay.Proofs.Text.Case
import ChangeRelay.Proofs.Dn.Rdns
import ChangeRelay.Proofs.Dn.Scope
import ChangeRelay.Proofs.Dn.Normal
import ChangeRelay.Proofs.Config.Startup
import ChangeRelay.Proofs.Checkpoint.Outcome
import ChangeRelay.Proofs.Filter
import ChangeRelay.Proofs.Feed.Gaps
import ChangeRelay.Proofs.Text.Fixed
import ChangeRelay.Proofs.Dn.Fixed
import ChangeRelay.Proofs.Config.Waiting
import ChangeRelay.Proofs.Number.Magnitude
import ChangeRelay.Proofs.Number.Rounding
import ChangeRelay.Proofs.Number.Shortest
import ChangeRelay.Proofs.Retry
import ChangeRelay.Proofs.Config.Written
import ChangeRelay.Proofs.Trigger.Changelog
import ChangeRelay.Proofs.Stream.Chronicle
import ChangeRelay.Proofs.Json.Doubles
import ChangeRelay.Proofs.Json.Alike
import ChangeRelay.Proofs.Store.Tags
import ChangeRelay.Proofs.Feed.ChangeId
import ChangeRelay.Proofs.Batch
import ChangeRelay.Proofs.Redis.Connector
