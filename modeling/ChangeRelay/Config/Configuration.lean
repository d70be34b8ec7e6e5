import ChangeRelay.Config.Endpoints
import ChangeRelay.Stream.Definition

/-!
# Configurations

A whole configuration. Checking it covers everything that can be told without connecting; the
first fault in the order of the sections wins.
-/

namespace ChangeRelay

/-- A configuration. -/
structure Configuration where
  settings : Config.Settings := {}
  source : Config.Source
  destination : Config.Destination
  /-- In the order in which they are started. -/
  streams : List StreamDefinition := []
deriving DecidableEq

namespace Configuration

/-- Memory on both sides and no streams. -/
def testing : Configuration := { source := .memory, destination := .memory }

/-- Checks streams one by one; `seen` holds the names before. -/
def validateStreams (checkpoints : String) (seen : List String) :
    List StreamDefinition → Except StreamFault Unit
  | [] => .ok ()
  | d :: rest =>
    match d.validate checkpoints with
    | .error e => .error e
    | .ok () =>
      if seen.contains d.consumer then .error (StreamDefinition.duplicate d.consumer)
      else validateStreams checkpoints (d.consumer :: seen) rest

def validate (c : Configuration) : Except StreamFault Unit := do
  c.settings.validate
  c.source.validate c.settings.consumer.heartbeat
  c.destination.validate
  validateStreams c.settings.checkpoints [] c.streams

/-- The chains of all streams, or the fault of the first that cannot be built. -/
def checkChains (registry : Registry) : List StreamDefinition → Except StreamFault Unit
  | [] => .ok ()
  | d :: rest => do
    let _ ← registry.build d.consumer d.chain
    checkChains registry rest

def toValue (c : Configuration) : Json.Value :=
  .ofFields [("settings", c.settings.toValue), ("source", c.source.toValue),
    ("destination", c.destination.toValue),
    ("streams", .array (c.streams.map StreamDefinition.toValue))]

end Configuration

end ChangeRelay
