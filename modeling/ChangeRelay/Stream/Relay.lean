import ChangeRelay.Feed.Memory
import ChangeRelay.Store.Memory
import ChangeRelay.Stream.Supervisor

/-!
# A relay in memory

A supervisor with its workers over a feed and a store in memory, under a clock of its own. Every
step belongs to one worker or one call; workers that can go on stand in a queue, and time passes
only when it is empty. Times are in milliseconds.
-/

namespace ChangeRelay

/-- A read of the feed that found nothing yet. -/
structure PendingRead where
  /-- When the feed gives a sign of life instead; none for never. -/
  heartbeatAt : Option Nat
  /-- The order in which reads began to wait. -/
  turn : Nat
deriving DecidableEq

/-- What runs a consumer. -/
structure Worker where
  consumer : Consumer
  /-- It was told to stop. -/
  stop : Bool := false
  subscription : Option Feed.Subscription := none
  pending : Option PendingRead := none
  /-- When the consumer's own waiting ends. -/
  alarm : Option Nat := none

/-- The times at which something happens to a worker. -/
def Worker.times (w : Worker) : List Nat :=
  w.alarm.toList ++ (w.pending.bind PendingRead.heartbeatAt).toList

/-- A relay in memory. -/
structure Relay where
  settings : SupervisorSettings
  registry : Registry
  /-- Whether an open circuit breaker has always waited long enough. -/
  recovered : Bool := false
  /-- How many numbers before its checkpoint a subscription begins. -/
  replay : UInt64 := 0
  /-- Why the source refuses every query, if it does. -/
  refusal : Option String := none
  supervisor : Supervisor := {}
  /-- By number; a worker that has ended stays. -/
  workers : List Worker := []
  feed : Feed.Memory := {}
  store : Store.Memory := {}
  clock : Nat := 0
  /-- The workers that may be able to go on, by number. -/
  queue : List Nat := []
  /-- Reads of the feed that had to wait so far. -/
  turns : Nat := 0
  metrics : Metrics.Table := []

namespace Relay

/-- The first millisecond at which a span from now is over. -/
def after (r : Relay) (d : Duration) : Nat :=
  r.clock + (d.nanos + (Duration.perMilli - 1)) / Duration.perMilli

def moment (r : Relay) : Moment :=
  { now := { nanos := r.clock * Duration.perMilli }, recovered := r.recovered }

def setWorker (r : Relay) (n : Nat) (w : Worker) : Relay :=
  { r with workers := r.workers.set n w }

def record (r : Relay) (readings : List Metrics.Reading) : Relay :=
  { r with metrics := r.metrics.recordAll readings }

/-- Lets a worker go on when its turn comes. -/
def wake (r : Relay) (n : Nat) : Relay :=
  if r.queue.contains n then r else { r with queue := r.queue ++ [n] }

/-- Gives a consumer a signal; what its worker waited for is over. -/
def signal (r : Relay) (n : Nat) (w : Worker) (s : Signal) : Relay :=
  let (consumer, readings) := w.consumer.step r.moment s
  (r.setWorker n { w with consumer, pending := none, alarm := none }).record readings

/-- Opens a subscription for a consumer. -/
def subscribe (r : Relay) (query : Query) (checkpoint : UInt64) :
    Relay × Except FeedFault Feed.Subscription :=
  match r.refusal with
  | some text => (r, .error (.invalidQuery text))
  | none =>
    let start := if checkpoint < r.replay then 0 else checkpoint - r.replay
    let (feed, answer) := r.feed.subscribe query start
    ({ r with feed }, answer)

/-- Whether a time has come. -/
def due (r : Relay) (t : Option Nat) : Bool := t.any fun t => t ≤ r.clock

/-- One step of a worker that waits for its subscription. -/
def pollItem (r : Relay) (n : Nat) (w : Worker) (s : Session) : Option Relay :=
  if w.stop then some (r.signal n w .stop)
  else
    let alarm := w.alarm.getD (r.after (w.consumer.patience s))
    let w := { w with alarm := some alarm }
    match w.subscription, w.pending with
    | none, _ => none
    | some sub, none =>
      match sub.poll r.feed with
      | (feed, sub, some answer) =>
        some ({ r with feed }.signal n { w with subscription := some sub } (.item answer))
      | (feed, sub, none) =>
        let pending : PendingRead := ⟨feed.heartbeat.map r.after, r.turns⟩
        some ({ r with feed, turns := r.turns + 1 }.setWorker n
          { w with subscription := some sub, pending := some pending })
    | some _, some p =>
      if r.due p.heartbeatAt then some (r.signal n w (.item (.ok (some .heartbeat))))
      else if r.due (some alarm) then some (r.signal n w .elapsed)
      else none

/-- One step of a worker that writes a batch. -/
def pollWrite (r : Relay) (n : Nat) (w : Worker) (ops : List Store.BatchOp) : Option Relay :=
  let write (r : Relay) : Relay :=
    let (store, answer) := r.store.apply ops
    { r with store }.signal n w (.wrote answer)
  match w.alarm with
  | some t => if t ≤ r.clock then some (write r) else none
  | none =>
    match r.store.enter with
    | (store, .error e) => some ({ r with store }.signal n w (.wrote (.error e)))
    | (store, .ok ()) =>
      let r := { r with store }
      if store.commitDelay = 0 then some (write r)
      else some (r.setWorker n { w with alarm := some (r.clock + store.commitDelay) })

/-- One step of a worker; none if it has to wait. -/
def poll (r : Relay) (n : Nat) : Option Relay := do
  let w ← r.workers[n]?
  match w.consumer.phase with
  | .starting => return r.signal n w (.start w.stop)
  | .reading => return r.signal n w (.read (r.store.get w.consumer.checkpoint))
  | .subscribing checkpoint =>
    let (r, answer) := r.subscribe w.consumer.query checkpoint
    let w := { w with subscription := answer.toOption }
    return r.signal n w (.subscribed (answer.map fun _ => ()))
  | .waiting s => r.pollItem n w s
  | .throttled _ _ => return r.signal n w .passed
  | .committing p _ =>
    match p.request with
    | some (.get a) => return r.signal n w (.read (r.store.get a))
    | some (.putBatch ops) => r.pollWrite n w ops
    | none => none
  | .backingOff delay =>
    if w.stop then return r.signal n w .stop
    else if w.consumer.resume.ready then return r.signal n w .resumed
    else
      match w.alarm with
      | none => return r.setWorker n { w with alarm := some (r.after delay) }
      | some t => if t ≤ r.clock then return r.signal n w .elapsed else none
  | .paused =>
    if w.stop then return r.signal n w .stop
    else if w.consumer.resume.ready then return r.signal n w .resumed
    else none
  | .finished => none

/-- Lets the workers in the queue go on, each until it has to wait. -/
def settle (r : Relay) : Nat → Relay
  | 0 => r
  | fuel + 1 =>
    match r.queue with
    | [] => r
    | n :: rest =>
      match r.poll n with
      | some r => settle r fuel
      | none => settle { r with queue := rest } fuel

/-! ## The feed -/

/-- The workers whose reads wait, in the order in which they began to. -/
def waitingReads (r : Relay) : List Nat :=
  let reads := (List.range r.workers.length).filterMap fun n =>
    ((r.workers[n]?).bind Worker.pending).map fun p => (p.turn, n)
  (reads.mergeSort fun a b => a.1 ≤ b.1).map Prod.snd

/-- Changes the feed and lets every read that waits look at it again. -/
def announce (r : Relay) (feed : Feed.Memory) : Relay :=
  r.waitingReads.foldl (fun r n =>
    match r.workers[n]? with
    | some w => (r.setWorker n { w with pending := none }).wake n
    | none => r) { r with feed }

/-! ## Time -/

/-- The first time after now, but not after `limit`, at which something happens to a worker. -/
def nextTime (r : Relay) (limit : Nat) : Option Nat :=
  ((r.workers.flatMap Worker.times).filter fun t => r.clock < t && t ≤ limit).foldl
    (fun first t =>
      match first with
      | none => some t
      | some u => some (if t < u then t else u)) none

/-- Lets time pass up to a point. -/
def passTo (r : Relay) (t : Nat) : Relay :=
  let r := { r with clock := t }
  (List.range r.workers.length).foldl (fun r n =>
    match r.workers[n]? with
    | some w => if w.times.any (· ≤ t) then r.wake n else r
    | none => r) r

/-- An upper bound on the steps between two points in time. -/
def stepLimit : Nat := 1000000

/-- Lets time pass up to a point, and the workers go on as their times come. -/
def advance (r : Relay) (limit : Nat) : Nat → Relay
  | 0 => r
  | fuel + 1 =>
    let r := r.settle stepLimit
    match r.nextTime limit with
    | some t => advance (r.passTo t) limit fuel
    | none => (r.passTo limit).settle stepLimit

/-- Lets a span pass. -/
def wait (r : Relay) (millis : Nat) : Relay := r.advance (r.clock + millis) stepLimit

/-! ## Calls of the supervisor -/

/-- How a stream fares. -/
def healthOf (r : Relay) : HealthSource → StreamHealth
  | .failed reason => .failed reason
  | .worker n =>
    match r.workers[n]? with
    | some w => w.consumer.health
    | none => .stopped

def healthCheck (r : Relay) : HealthCheck := r.supervisor.health r.healthOf

/-- Starts a worker. -/
def spawn (r : Relay) (d : StreamDefinition) (pipeline : Pipeline) : Relay :=
  let consumer := Consumer.new d pipeline r.settings
  let worker : Worker := { consumer }
  { r with workers := r.workers ++ [worker] }.wake r.workers.length

/-- Tells a worker to stop. -/
def stopWorker (r : Relay) (n : Nat) : Relay :=
  match r.workers[n]? with
  | some w => (r.setWorker n { w with stop := true }).wake n
  | none => r

/-- Wakes a worker out of a pause or a backoff. -/
def resumeWorker (r : Relay) (n : Nat) : Relay :=
  match r.workers[n]? with
  | some w =>
    let consumer := { w.consumer with resume := w.consumer.resume.notify }
    (r.setWorker n { w with consumer }).wake n
  | none => r

/-- Whether a worker has ended. -/
def hasEnded (r : Relay) (n : Nat) : Bool :=
  match r.workers[n]? with
  | some w => w.consumer.isFinished
  | none => true

/-- What a call finds now. -/
def scene (r : Relay) : Scene where
  prepare d := d.prepare r.registry r.settings.checkpoints
  next := r.workers.length
  health := r.healthOf
  ended := r.hasEnded
  deadline := r.after r.settings.drainTimeout
  passed t := t ≤ r.clock

/-- Does to the workers what a call wants done. -/
def perform (r : Relay) : Errand → Relay
  | .nothing => r
  | .spawn d pipeline => r.spawn d pipeline
  | .stop workers => workers.foldl stopWorker r
  | .wake n => r.resumeWorker n

/-- One step of a call; none if it has to wait or has returned. -/
def callStep (r : Relay) (c : Call) : Option (Relay × Call) :=
  (r.supervisor.advance r.scene c).map fun a =>
    (({ r with supervisor := a.supervisor }.record a.readings).perform a.errand, a.call)

/-- Runs a call until it has to wait or has returned. -/
def runCall (r : Relay) (c : Call) : Nat → Relay × Call
  | 0 => (r, c)
  | fuel + 1 =>
    match r.callStep c with
    | some (r, c) => runCall r c fuel
    | none => (r, c)

/-- Runs each of several calls in turn until it has to wait or has returned. -/
def runEach (r : Relay) : List Call → Relay × List Call
  | [] => (r, [])
  | c :: rest =>
    let (r, c) := r.runCall c stepLimit
    let (r, rest) := runEach r rest
    (r, c :: rest)

/-- The first deadline of calls that wait. -/
def firstDeadline (calls : List Call) : Option Nat :=
  (calls.filterMap Call.deadline?).foldl
    (fun first t =>
      match first with
      | none => some t
      | some u => some (if t < u then t else u)) none

/-- Runs calls side by side until all have returned. Time passes while they wait for workers. -/
def runCalls (r : Relay) (calls : List Call) : Nat → Relay × List Call
  | 0 => (r, calls)
  | fuel + 1 =>
    let (r, calls) := r.runEach calls
    let r := r.settle stepLimit
    let (r, calls) := r.runEach calls
    match firstDeadline calls with
    | none => (r.settle stepLimit, calls)
    | some deadline => runCalls (r.passTo ((r.nextTime deadline).getD deadline)) calls fuel

/-- Runs calls side by side; the result is their answers. -/
def call (r : Relay) (calls : List Call) : Relay × List (Except StreamFault Unit) :=
  let (r, calls) := r.runCalls calls stepLimit
  (r, calls.filterMap Call.result?)

/-- Shuts down, and goes on with a new supervisor over the same feed and store. -/
def restart (r : Relay) : Relay :=
  let (r, _) := r.call [.shutdown]
  { r with supervisor := {} }

end Relay

end ChangeRelay
