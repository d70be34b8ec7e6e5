import ChangeRelay.Stream.Consumer

/-!
# Supervisors

A supervisor keeps one entry per stream. Its calls are cut at the points where others may come in
between: reading the flag of a shutdown, taking the lock on the entries, and waiting for a consumer
to end. Each function here is what a call does at one such point.
-/

namespace ChangeRelay

/-- What shows how a stream fares. -/
inductive HealthSource where
  /-- The worker that runs its consumer, by number. -/
  | worker (n : Nat)
  /-- It never started. -/
  | failed (reason : String)
deriving DecidableEq, Repr

/-- The entry of a stream. -/
structure StreamEntry where
  source : HealthSource
  /-- The worker to stop; none if there is none, or if somebody is about to stop it. -/
  running : Option Nat
  /-- A removal is waiting for the consumer to end. -/
  stopping : Bool := false
deriving DecidableEq, Repr

/-- The streams of a supervisor, by consumer. -/
structure Supervisor where
  shuttingDown : Bool := false
  streams : List (String × StreamEntry) := []
deriving DecidableEq, Repr

namespace Supervisor

/-- The fault of a name that no stream has. -/
def unknownStream (id : String) : StreamFault := .config s!"unknown stream '{id}'"

/-- The fault of a removal while another one waits. -/
def alreadyStopping : StreamFault := .state "running" "stopping"

/-- The fault of a removal whose consumer did not end in time. -/
def stillDraining : StreamFault := .state "stopped" "draining"

/-- The fault of a retry of a stream that does not wait for one. -/
def notWaiting (health : StreamHealth) : StreamFault :=
  .state "paused or backoff" health.label

/-- Whether a stream may be added, before the lock is taken. -/
def checkAdd (s : Supervisor) (d : StreamDefinition) : Except StreamFault Unit :=
  if s.shuttingDown then .error .shutdown
  else if Text.isBlankText d.consumer then .error StreamDefinition.unnamed
  else .ok ()

/-- The reading of the number of entries. -/
def activeReading (s : Supervisor) : List Metrics.Reading := Metrics.activeStreams s.streams.length

/-- Enters a stream, given its pipeline or why there is none; a stream that starts is given to the
worker of this number. -/
def register (s : Supervisor) (d : StreamDefinition) (prepared : Except StreamFault Pipeline)
    (worker : Nat) : Supervisor × Except StreamFault Pipeline × List Metrics.Reading :=
  if Assoc.contains d.consumer s.streams then
    (s, .error (StreamDefinition.duplicate d.consumer), [])
  else
    match prepared with
    | .error e =>
      let entry : StreamEntry := { source := .failed e.message, running := none }
      ({ s with streams := Assoc.insert d.consumer entry s.streams }, .error e,
        Metrics.streamState d.consumer "failed")
    | .ok pipeline =>
      let entry : StreamEntry := { source := .worker worker, running := some worker }
      let s := { s with streams := Assoc.insert d.consumer entry s.streams }
      (s, .ok pipeline, s.activeReading)

/-- Begins a removal: takes the worker to stop out of the entry. -/
def beginRemove (s : Supervisor) (id : String) :
    Supervisor × Except StreamFault (Option Nat) :=
  match Assoc.find? id s.streams with
  | none => (s, .error (unknownStream id))
  | some entry =>
    if entry.stopping then (s, .error alreadyStopping)
    else
      let entry' := { entry with running := none, stopping := true }
      ({ s with streams := Assoc.insert id entry' s.streams }, .ok entry.running)

/-- Ends a removal whose consumer did not end in time: the entry gets its worker back. -/
def keep (s : Supervisor) (id : String) (worker : Nat) : Supervisor :=
  match Assoc.find? id s.streams with
  | none => s
  | some entry =>
    let entry := { entry with running := some worker, stopping := false }
    { s with streams := Assoc.insert id entry s.streams }

/-- Ends a removal: forgets the entry. -/
def forget (s : Supervisor) (id : String) : Supervisor × List Metrics.Reading :=
  let s := { s with streams := Assoc.erase id s.streams }
  (s, s.activeReading)

/-- The worker that a retry wakes; `health` is what each source shows. -/
def retryTarget (s : Supervisor) (health : HealthSource → StreamHealth) (id : String) :
    Except StreamFault Nat :=
  match Assoc.find? id s.streams with
  | none => .error (unknownStream id)
  | some entry =>
    match health entry.source, entry.running with
    | .paused _ _, some n | .backoff _ _, some n => .ok n
    | h, _ => .error (notWaiting h)

/-- Takes all entries out for a shutdown; the result is the workers to stop. -/
def takeAll (s : Supervisor) : Supervisor × List Nat :=
  ({ s with streams := [] }, s.streams.filterMap fun p => p.2.running)

/-- The health of all streams. -/
def health (s : Supervisor) (health : HealthSource → StreamHealth) : HealthCheck :=
  s.streams.map fun p => (p.1, health p.2.source)

end Supervisor

/-- A call of a supervisor, by the point it has reached. -/
inductive Call where
  | add (d : StreamDefinition)
  /-- Waits for the lock to enter a stream. -/
  | register (d : StreamDefinition)
  | remove (id : String)
  /-- Is about to signal a worker. -/
  | signal (id : String) (worker : Nat)
  /-- Waits for a worker to end, up to a deadline. -/
  | drain (id : String) (worker : Nat) (deadline : Nat)
  /-- Waits for the lock to give a worker back. -/
  | keep (id : String) (worker : Nat)
  /-- Waits for the lock to forget a stream. -/
  | forget (id : String)
  | retry (id : String)
  /-- Is about to wake a worker. -/
  | wake (worker : Nat)
  | shutdown
  /-- Waits for the lock to take all entries. -/
  | takeAll
  /-- Is about to signal workers. -/
  | signalAll (workers : List Nat)
  | drainAll (workers : List Nat) (deadline : Nat)
  | returned (result : Except StreamFault Unit)

namespace Call

/-- The result of a call that has returned. -/
def result? : Call → Option (Except StreamFault Unit)
  | .returned r => some r
  | _ => none

/-- When a call stops waiting. -/
def deadline? : Call → Option Nat
  | .drain _ _ t | .drainAll _ t => some t
  | _ => none

end Call

/-- What a call finds at the point that it has reached. -/
structure Scene where
  /-- The pipeline of a definition, or why it has none. -/
  prepare : StreamDefinition → Except StreamFault Pipeline
  /-- The number of the next worker. -/
  next : Nat
  health : HealthSource → StreamHealth
  ended : Nat → Bool
  /-- When a wait that begins now is over. -/
  deadline : Nat
  /-- Whether a deadline has come. -/
  passed : Nat → Bool

/-- What a call wants done to the workers. -/
inductive Errand where
  | nothing
  | spawn (d : StreamDefinition) (pipeline : Pipeline)
  | stop (workers : List Nat)
  | wake (worker : Nat)

/-- A step of a call. -/
structure Advance where
  supervisor : Supervisor
  /-- The point that the call comes to. -/
  call : Call
  errand : Errand := .nothing
  readings : List Metrics.Reading := []

/-- One step of a call; none if it has to wait or has returned. -/
def Supervisor.advance (s : Supervisor) (scene : Scene) : Call → Option Advance
  | .add d =>
    match s.checkAdd d with
    | .ok () => some { supervisor := s, call := .register d }
    | .error e => some { supervisor := s, call := .returned (.error e) }
  | .register d =>
    match s.register d (scene.prepare d) scene.next with
    | (supervisor, .ok pipeline, readings) =>
      some { supervisor, call := .returned (.ok ()), errand := .spawn d pipeline, readings }
    | (supervisor, .error e, readings) =>
      some { supervisor, call := .returned (.error e), readings }
  | .remove id =>
    match s.beginRemove id with
    | (supervisor, .ok (some n)) => some { supervisor, call := .signal id n }
    | (supervisor, .ok none) => some { supervisor, call := .forget id }
    | (supervisor, .error e) => some { supervisor, call := .returned (.error e) }
  | .signal id n =>
    some { supervisor := s, call := .drain id n scene.deadline, errand := .stop [n] }
  | .drain id n deadline =>
    if scene.ended n then some { supervisor := s, call := .forget id }
    else if scene.passed deadline then some { supervisor := s, call := .keep id n }
    else none
  | .keep id n =>
    some { supervisor := s.keep id n, call := .returned (.error stillDraining) }
  | .forget id =>
    let (supervisor, readings) := s.forget id
    some { supervisor, call := .returned (.ok ()), readings }
  | .retry id =>
    match s.retryTarget scene.health id with
    | .ok n => some { supervisor := s, call := .wake n }
    | .error e => some { supervisor := s, call := .returned (.error e) }
  | .wake n => some { supervisor := s, call := .returned (.ok ()), errand := .wake n }
  | .shutdown => some { supervisor := { s with shuttingDown := true }, call := .takeAll }
  | .takeAll =>
    let (supervisor, workers) := s.takeAll
    some { supervisor, call := .signalAll workers }
  | .signalAll workers =>
    some { supervisor := s, call := .drainAll workers scene.deadline, errand := .stop workers }
  | .drainAll workers deadline =>
    if workers.all scene.ended || scene.passed deadline then
      some { supervisor := s, call := .returned (.ok ()), readings := Metrics.activeStreams 0 }
    else none
  | .returned _ => none

end ChangeRelay
