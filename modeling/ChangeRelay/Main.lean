import ChangeRelay.Cli.Request
import ChangeRelay.Stream.Relay

/-!
# The program

Reads its command line, prints, and keeps a relay in memory running. Everything that is decided is
decided elsewhere; other stores and feeds than those in memory need a client that is not part of
this program.
-/

namespace ChangeRelay.Cli

/-- A log line: a message and what belongs to it. -/
def logLine (format : LogFormat) (message : String) (fields : List (String × String)) :
    String :=
  match format with
  | .text => " ".intercalate (message :: fields.map fun p => s!"{p.1}={p.2}")
  | .json =>
    (Json.Value.ofFields (("message", .string message) ::
      fields.map fun p => (p.1, .string p.2))).text

/-- The line that reports the health of all streams. -/
def healthLine (format : LogFormat) (c : HealthCheck) : String :=
  logLine format "Health" [("total", toString c.total), ("streaming", toString c.streaming),
    ("backoff", toString c.inBackoff), ("attention", toString c.attention)]

/-- Lets a relay run, with a report after each span. -/
partial def serve (format : LogFormat) (span : Nat) (relay : Relay) : IO Unit := do
  IO.println (healthLine format relay.healthCheck)
  (← IO.getStdout).flush
  IO.sleep (UInt32.ofNat span)
  serve format span (relay.wait span)

/-- A relay in memory with the streams of a configuration. -/
def relayOf (c : Configuration) : Relay :=
  let relay : Relay := { settings := c.settings.supervisor, registry := .builtins }
  c.streams.foldl (fun r d => (r.call [.add d]).1) relay

/-- Starts a relay by a configuration and keeps it running. -/
def runRelay (format : LogFormat) (around : Surroundings) (c : Configuration) : IO Ending := do
  match c.start around with
  | .error e => return .failed e
  | .ok started =>
    match started.source, started.destination with
    | .memory _, .memory =>
      let span := c.settings.healthInterval.nanos / Duration.perMilli
      if c.settings.healthInterval.nanos = 0 then return .aborted
      serve format (if span = 0 then 1 else span) (relayOf c)
      return .done
    | _, _ => return .failed (.internal "only memory can be replicated without a client")

/-- Carries out a command. -/
def act (c : Command) (format : LogFormat) (around : Surroundings) (path : String) :
    IO Ending := do
  match c with
  | .validate => return c.perform around path
  | .run =>
    match Configuration.load around path with
    | .error e => return .failed e
    | .ok config => runRelay format around config

/-- The text of a file, if it can be read. -/
def readText? (path : String) : IO (Option String) := do
  try return some (← IO.FS.readFile path) catch _ => return none

/-- Does what a command line asks for; the result is the exit code. -/
def execute (args : List String) : IO UInt32 := do
  match Request.ofArgs args with
  | .error e =>
    IO.eprintln s!"error: {e.message}"
    return 2
  | .ok (.act c path format) =>
    let text ← readText? path
    let ending ← act c format { file? := fun _ => text, canOpen := fun _ => false } path
    match ending with
    | .done => IO.println (logLine format "Configuration is valid" [("path", path)])
    | .failed e => IO.println (logLine format "Failed" [("error", e.message)])
    | .aborted => IO.println (logLine format "Failed" [("error", "no time between health reports")])
    return UInt32.ofNat ending.exitCode
  | .ok request =>
    let printed := match request with
      | .help topic => topic.lines
      | _ => [versionText]
    printed.forM fun line => IO.println line
    return 0

end ChangeRelay.Cli

def main (args : List String) : IO UInt32 := ChangeRelay.Cli.execute args
