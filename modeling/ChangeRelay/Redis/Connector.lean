import ChangeRelay.Fault
import ChangeRelay.Metrics
import ChangeRelay.Retry
import ChangeRelay.Text.Decimal

/-!
# Redis connections

A connector keeps one connection, set up when it is first needed and again after a command failed
on it. Setting up takes a bounded number of attempts, and reports each of them.
-/

namespace ChangeRelay.Redis

/-- A connection that could not be set up. -/
structure ConnectFault where
  name : String
  reason : String
deriving DecidableEq, Repr

namespace ConnectFault

def message (f : ConnectFault) : String := s!"connection to {f.name} failed: {f.reason}"

def toFeed (f : ConnectFault) : FeedFault := .unavailable "connect" f.message

def toStore (f : ConnectFault) : StoreFault := .unavailable "connect" f.message

end ConnectFault

/-- What a URL has to start with. -/
def urlScheme : List Char := "redis://".toList

/-- Whether a port or a database number is well formed; `limit` is the first number too large. -/
def isNumeral (limit : Nat) (cs : List Char) : Bool :=
  match Text.readNat? cs with
  | some n => n < limit
  | none => false

/-- Whether a text is a host, with or without a port. -/
def isAuthority (cs : List Char) : Bool :=
  let address := match cs.dropWhile (· ≠ '@') with
    | _ :: host => host
    | [] => cs
  let host := address.takeWhile (· ≠ ':')
  host ≠ [] && !host.any Char.isWhitespace &&
    match address.dropWhile (· ≠ ':') with
    | _ :: port => port = [] || isNumeral 65536 port
    | [] => true

/-- Whether a text is the URL of a Redis server: a host, maybe a port, maybe a database. -/
def isUrl (url : String) : Bool :=
  let cs := url.toList
  urlScheme.isPrefixOf cs &&
    let rest := cs.drop urlScheme.length
    isAuthority (rest.takeWhile (· ≠ '/')) &&
      match rest.dropWhile (· ≠ '/') with
      | _ :: db => db = [] || isNumeral (pow2 63) db
      | [] => true

/-- Where a connection stands. -/
inductive ConnectionState where
  | disconnected
  | connecting
  | connected
  /-- The last attempts to connect were used up. -/
  | backoff
deriving DecidableEq, Repr

def ConnectionState.word : ConnectionState → String
  | .disconnected => "disconnected"
  | .connecting => "connecting"
  | .connected => "connected"
  | .backoff => "backoff"

/-- A connection and how it fared. -/
structure Connector where
  name : String
  retry : Retry
  state : ConnectionState := .disconnected
  /-- Whether there is a connection to use. -/
  live : Bool := false
  failures : Nat := 0

namespace Connector

/-- A connector for a URL, if the client that is to connect accepts it as one. -/
def ofUrl (accepts : String → Bool) (name url : String) (retry : Retry) :
    Except ConnectFault Connector :=
  if accepts url then .ok { name, retry }
  else .error ⟨name, "Invalid Redis URL: Redis URL did not parse"⟩

/-- A connector for a URL, if it is one. -/
def new (name url : String) (retry : Retry) : Except ConnectFault Connector :=
  ofUrl isUrl name url retry

/-- Takes the outcome of attempt number `attempt`. The result is none if there will be another. -/
def afterAttempt (c : Connector) (attempt : Nat) (outcome : Except String Unit) :
    Connector × Option (Except ConnectFault Unit) :=
  match outcome with
  | .ok () => ({ c with state := .connected, live := true, failures := 0 }, some (.ok ()))
  | .error reason =>
    let c := { c with failures := c.failures + 1 }
    if c.retry.maxAttempts ≤ attempt then
      ({ c with state := .backoff },
        some (.error ⟨c.name, s!"Connection failed after {attempt} attempts: {reason}"⟩))
    else (c, none)

/-- How an attempt at a connection ends. -/
inductive Attempt where
  | connected
  | refused (reason : String)
  | timedOut
deriving DecidableEq, Repr

/-- What is made of the end of an attempt. -/
def outcome (c : Connector) : Attempt → Except String Unit
  | .connected => .ok ()
  | .refused reason => .error reason
  | .timedOut => .error s!"timed out after {c.retry.connectionTimeout.text}"

/-- Attempts from number `attempt` on, with these outcomes. The result is none if they end before a
decision. The wait for the next attempt is left out, since it touches nothing of the connector: the
program waits for `Retry.jitteredDelay`, and panics instead where the jitter is no number, where a
negative factor makes the delay negative, and where the delay is too long for a duration. Settings
that passed their check leave only the last of these. -/
def attempts (c : Connector) (attempt : Nat) :
    List (Except String Unit) → Connector × Option (Except ConnectFault Unit)
  | [] => (c, none)
  | outcome :: rest =>
    match c.afterAttempt attempt outcome with
    | (c, some result) => (c, some result)
    | (c, none) => attempts c (attempt + 1) rest

/-- Makes sure that there is a connection. -/
def ensure (c : Connector) (outcomes : List (Except String Unit)) :
    Connector × Option (Except ConnectFault Unit) :=
  if c.live then (c, some (.ok ()))
  else attempts { c with state := .connecting } 1 outcomes

/-- Drops the connection after a command failed on it. -/
def invalidate (c : Connector) : Connector :=
  if c.live then { c with live := false, state := .disconnected, failures := c.failures + 1 }
  else c

/-! ### Reports -/

/-- Reports where the connection stands. -/
def stateReadings (c : Connector) : List Metrics.Reading :=
  Metrics.connectionState c.name c.state.word

/-- What is reported once attempt number `attempt` is over: how it ended, and the state that a last
attempt leaves. -/
def attemptReadings (c : Connector) (attempt : Nat) (outcome : Except String Unit) :
    List Metrics.Reading :=
  let (after, result) := c.afterAttempt attempt outcome
  let state := if result.isSome then after.stateReadings else []
  match outcome with
  | .ok () => state ++ Metrics.connection c.name true
  | .error _ => Metrics.connection c.name false ++ state

/-- What is reported of attempts from number `attempt` on. -/
def attemptsReadings (c : Connector) (attempt : Nat) :
    List (Except String Unit) → List Metrics.Reading
  | [] => []
  | outcome :: rest =>
    c.attemptReadings attempt outcome ++
      match c.afterAttempt attempt outcome with
      | (_, some _) => []
      | (c, none) => attemptsReadings c (attempt + 1) rest

/-- What is reported while it is made sure that there is a connection. -/
def ensureReadings (c : Connector) (outcomes : List (Except String Unit)) :
    List Metrics.Reading :=
  if c.live then []
  else
    let c := { c with state := .connecting }
    c.stateReadings ++ c.attemptsReadings 1 outcomes

/-- What is reported when the connection is dropped. -/
def invalidateReadings (c : Connector) : List Metrics.Reading :=
  if c.live then c.invalidate.stateReadings else []

end Connector

end ChangeRelay.Redis
