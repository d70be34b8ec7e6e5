import ChangeRelay.Config.Document
import ChangeRelay.Stream.Supervisor
import ChangeRelay.Trigger.Registry

/-!
# Checking and starting

What can be done with a configuration file: checking it, and starting a relay by it. Both are
functions of what is found around the relay, so that they can be compared.
-/

namespace ChangeRelay

/-- What a relay finds around it. -/
structure Surroundings where
  /-- The text of a file, if it can be read. -/
  file? : String → Option String
  /-- Whether a database file can be opened, or created where there is none. -/
  canOpen : String → Bool
  /-- Whether the client of a Redis server accepts a text as a URL. -/
  accepts : String → Bool := Redis.isUrl

/-- A relay whose streams are about to take their first steps. -/
structure Started where
  source : Config.OpenSource
  destination : Config.OpenDestination
  supervisor : Supervisor

/-- How a command on a configuration file ends. -/
inductive Ending where
  /-- The file is valid, or the relay ran until it was interrupted. -/
  | done
  | failed (e : StreamFault)
  /-- The clock for health reports has no period to wait for. -/
  | aborted
deriving DecidableEq

namespace Ending

/-- Whether a fault lies in the configuration. -/
def isConfigFault : StreamFault → Bool
  | .config _ | .yaml _ | .io _ => true
  | _ => false

/-- What the process leaves to whoever called it. -/
def exitCode : Ending → Nat
  | .done => 0
  | .failed e => if isConfigFault e then 2 else 1
  | .aborted => 101

end Ending

namespace Configuration

/-- The configuration in a file, once it was validated. -/
def load (around : Surroundings) (path : String) : Except StreamFault Configuration :=
  match around.file? path with
  | none => .error (.io s!"{path} cannot be read")
  | some text => do
    let c ← ofYaml text
    c.validate
    return c

/-- Checks a file down to its trigger chains; the result is the number of its streams. -/
def check (around : Surroundings) (path : String) : Except StreamFault Nat := do
  let c ← load around path
  checkChains .builtins c.streams
  return c.streams.length

/-- Opens a destination; a database file is opened for good. -/
def openDestination (around : Surroundings) (d : Config.Destination) (retry : Retry) :
    Except StreamFault Config.OpenDestination := do
  match ← d.openBy around.accepts retry with
  | .sqlite path =>
    if around.canOpen path then return .sqlite path
    else .error (StoreFault.unavailable "open" s!"{path} cannot be opened").toStream
  | opened => return opened

/-- Adds streams in order, up to the first that is refused. -/
def addStreams (registry : Registry) (checkpoints : String) (s : Supervisor) :
    List StreamDefinition → Except StreamFault Supervisor
  | [] => .ok s
  | d :: rest => do
    s.checkAdd d
    let (s, result, _) := s.register d (d.prepare registry checkpoints) s.streams.length
    let _ ← result
    addStreams registry checkpoints s rest

/-- Starts a relay. -/
def start (around : Surroundings) (c : Configuration) : Except StreamFault Started := do
  let settings := c.settings.supervisor
  let source ← c.source.openBy around.accepts settings.consumer.retry
  let destination ← openDestination around c.destination settings.consumer.retry
  let supervisor ← addStreams .builtins settings.checkpoints {} c.streams
  return { source, destination, supervisor }

/-- Checking as a command. -/
def validateCommand (around : Surroundings) (path : String) : Ending :=
  match check around path with
  | .ok _ => .done
  | .error e => .failed e

/-- Running as a command: a relay that has started runs until it is interrupted. -/
def runCommand (around : Surroundings) (path : String) : Ending :=
  match load around path with
  | .error e => .failed e
  | .ok c =>
    match start around c with
    | .error e => .failed e
    | .ok _ => if c.settings.healthInterval.nanos = 0 then .aborted else .done

end Configuration

end ChangeRelay
