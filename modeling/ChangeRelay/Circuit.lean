import ChangeRelay.Time.Duration

/-!
# Circuit breaker

Stops calls to a destination that keeps failing. While it is closed, and while it is half open,
the breaker watches a window of the last results; a window tells a failure rate only once it was
full before the latest result.
-/

namespace ChangeRelay

namespace Circuit

/-- Thresholds of a breaker, and how long it stays open. -/
structure Config where
  /-- Size of the window while closed; 0 counts as 1. -/
  failureThreshold : Nat := 5
  /-- Size of the window while half open; 0 counts as 1. -/
  successThreshold : Nat := 2
  recoveryTimeout : Duration := .ofSeconds 30
deriving DecidableEq, Repr

/-- Low thresholds and a short recovery. -/
def Config.testing : Config :=
  { failureThreshold := 4, successThreshold := 1, recoveryTimeout := .ofMillis 50 }

/-- Where a breaker stands; windows hold the latest result first, true for a failure. -/
inductive State where
  | closed (window : List Bool)
  | «open»
  | halfOpen (window : List Bool)
deriving DecidableEq, Repr

/-- A window of `size` results after one more, and the number of failures in it if it was full
before. -/
def recordResult (size : Nat) (window : List Bool) (failed : Bool) : List Bool × Option Nat :=
  let window' := (failed :: window).take size
  (window', if window.length = size then some (window'.count true) else none)

/-- A threshold as a window size. -/
def windowSize (threshold : Nat) : Nat := if threshold = 0 then 1 else threshold

/-- The state after a call that was let through. Half of the results failing is enough to open a
breaker, and half of the probes succeeding is enough to close it. -/
def State.afterCall (c : Config) (failed : Bool) : State → State
  | .closed window =>
    let n := windowSize c.failureThreshold
    match recordResult n window failed with
    | (window, some failures) => if n ≤ 2 * failures then .open else .closed window
    | (window, none) => .closed window
  | .halfOpen window =>
    let n := windowSize c.successThreshold
    match recordResult n window failed with
    | (window, some failures) =>
      if failed then if n ≤ 2 * failures then .open else .halfOpen window
      else if 2 * failures ≤ n then .closed [] else .halfOpen window
    | (window, none) => .halfOpen window
  | .open => .open

/-- The state in which a call runs, or none if it is rejected. `recovered` says that an open
breaker has waited out its recovery. -/
def State.enter (recovered : Bool) : State → Option State
  | .open => if recovered then some (.halfOpen []) else none
  | s => some s

end Circuit

/-- A named breaker that counts its calls. -/
structure Circuit where
  name : String
  config : Circuit.Config
  state : Circuit.State := .closed []
  total : Nat := 0
  successes : Nat := 0
  failures : Nat := 0
  rejections : Nat := 0
deriving DecidableEq, Repr

namespace Circuit

/-- Asks for a call; the flag says whether it may run. -/
def enter (c : Circuit) (recovered : Bool) : Circuit × Bool :=
  match c.state.enter recovered with
  | some s => ({ c with state := s, total := c.total + 1 }, true)
  | none => ({ c with total := c.total + 1, rejections := c.rejections + 1 }, false)

/-- Takes the result of a call that ran. -/
def finish (c : Circuit) (failed : Bool) : Circuit :=
  let state := c.state.afterCall c.config failed
  if failed then { c with state, failures := c.failures + 1 }
  else { c with state, successes := c.successes + 1 }

/-- What a caller is told of a call that did not succeed. -/
inductive Fault (ε : Type) where
  | rejected
  | failed (e : ε)

def Fault.message (describe : ε → String) : Fault ε → String
  | .rejected => "circuit breaker open, request rejected"
  | .failed e => s!"operation failed: " ++ describe e

/-- A whole call. -/
def call (c : Circuit) (recovered : Bool) (result : Except ε α) :
    Circuit × Except (Fault ε) α :=
  match c.enter recovered with
  | (c, false) => (c, .error .rejected)
  | (c, true) =>
    match result with
    | .ok a => (c.finish false, .ok a)
    | .error e => (c.finish true, .error (.failed e))

end Circuit

end ChangeRelay
