import ChangeRelay.Feed.Item
import ChangeRelay.Stream.Definition
import ChangeRelay.Stream.Health
import ChangeRelay.Stream.Settings
import ChangeRelay.Stream.Wakeup
import ChangeRelay.Writer

/-!
# Consumers

A consumer works one stream. In a session it subscribes after its checkpoint, runs each change
through its triggers and commits the intents in batches; a session that ends in a fault is
followed by a backoff, a pause or the end of the stream, as the class of the fault has it.

A consumer is a machine that waits for one signal at a time: an answer of the feed or the store, the
passing of time, or a call of its supervisor. Between two signals nothing happens, so that any
number of consumers can be interleaved.
-/

namespace ChangeRelay

/-- Where a session stands: the last change taken, and what is not committed yet. -/
structure Session where
  cursor : UInt64
  batch : Batch := {}
deriving DecidableEq

/-- What follows a commit. -/
inductive AfterCommit where
  /-- The session goes on behind the last change taken. -/
  | goOn (cursor : UInt64)
  | stop
  | fail (fault : StreamFault)
deriving DecidableEq

/-- What a consumer waits for. -/
inductive ConsumerPhase where
  /-- About to begin a session. -/
  | starting
  /-- Reads its checkpoint. -/
  | reading
  | subscribing (checkpoint : UInt64)
  /-- Waits for the next item of its subscription. -/
  | waiting (session : Session)
  /-- Holds a change back until the rate limit lets it pass. -/
  | throttled (session : Session) (change : Change)
  | committing (proposal : Checkpoint.Proposal) (after : AfterCommit)
  | backingOff (delay : Duration)
  | paused
  /-- Stopped or failed for good. -/
  | finished

/-- What a consumer can be told. -/
inductive Signal where
  /-- A session may begin, unless the consumer was told to stop. -/
  | start (stop : Bool)
  /-- The store's answer to a read. -/
  | read (answer : Except StoreFault (Option Store.Record))
  /-- The store's answer to a batch. -/
  | wrote (answer : Except StoreFault Unit)
  | subscribed (answer : Except FeedFault Unit)
  | item (answer : FeedAnswer)
  /-- The rate limit lets a change pass. -/
  | passed
  /-- The time that the consumer was to wait is over. -/
  | elapsed
  /-- An operator asks for another try. -/
  | resumed
  | stop

/-- What its surroundings add to a step of a consumer. -/
structure Moment where
  now : Instant
  /-- The random part of a delay, as a fraction of it. -/
  spread : Double := .zero false
  /-- Whether an open circuit breaker has waited long enough. -/
  recovered : Bool := false

/-- A consumer. -/
structure Consumer where
  query : Query
  pipeline : Pipeline
  writer : Writer
  settings : ConsumerSettings
  /-- Failed sessions in a row. -/
  attempt : Nat := 0
  /-- The change that the triggers refused last. -/
  stalledAt : Option UInt64 := none
  /-- How an operator wakes it. -/
  resume : Wakeup := {}
  /-- The health it published last. -/
  health : StreamHealth := .connecting
  phase : ConsumerPhase := .starting

/-- A consumer after a step, and what it reported. -/
abbrev ConsumerStep := Consumer × List Metrics.Reading

namespace Consumer

/-- The name of a consumer. -/
def id (c : Consumer) : String := c.writer.consumer

/-- The consumer of a stream whose definition was prepared. -/
def new (d : StreamDefinition) (pipeline : Pipeline) (settings : SupervisorSettings) : Consumer :=
  { query := d.query
    pipeline
    writer := .new d.consumer settings.checkpoints settings.circuit
    settings := settings.consumer }

/-- The address of its checkpoint. -/
def checkpoint (c : Consumer) : Store.Address := ⟨c.writer.bucket, c.id⟩

def isFinished (c : Consumer) : Bool :=
  match c.phase with
  | .finished => true
  | _ => false

/-- Publishes a health. -/
def publish (c : Consumer) (health : StreamHealth) : ConsumerStep :=
  ({ c with health }, Metrics.streamState c.id health.label)

/-- A step that reported something before. -/
def reporting (readings : List Metrics.Reading) (s : ConsumerStep) : ConsumerStep :=
  (s.1, readings ++ s.2)

/-- Ends the stream's work on request. -/
def finishStopped (c : Consumer) : ConsumerStep := { c with phase := .finished }.publish .stopped

/-! ## Reactions to faults -/

/-- Waits before the next session. The delay belongs to the number of attempts before this one. -/
def backOff (c : Consumer) (m : Moment) : ConsumerStep :=
  let delay := c.settings.retry.jitteredDelay c.attempt m.spread
  let attempt := c.attempt + 1
  let c := { c with attempt, resume := c.resume.await, phase := .backingOff delay }
  reporting (Metrics.backoff c.id attempt delay.seconds)
    (c.publish (.backoff attempt (m.now.later delay)))

/-- What is reported of a fault that pauses a stream. -/
def pauseReadings (c : Consumer) : StreamFault → List Metrics.Reading
  | .trigger stage _ => Metrics.triggerError c.id stage
  | .gap _ _ => Metrics.sequenceGap c.id
  | _ => []

/-- The change at which a fault halts the stream, if one is known. -/
def haltedAt (c : Consumer) (e : StreamFault) : Option UInt64 :=
  match e.sequence? with
  | some seq => some seq
  | none => c.stalledAt

/-- Halts until an operator asks for another try. -/
def pause (c : Consumer) (e : StreamFault) : ConsumerStep :=
  let seq := c.haltedAt e
  let c := { c with stalledAt := none, resume := c.resume.await, phase := .paused }
  reporting (c.pauseReadings e) (c.publish (.paused seq e.message))

/-- What a consumer does about the fault that ended its session. -/
def react (c : Consumer) (e : StreamFault) (m : Moment) : ConsumerStep :=
  match e with
  | .config reason => { c with phase := .finished }.publish (.failed reason)
  | e => if e.isRetryable then c.backOff m else c.pause e

/-! ## Commits -/

/-- Goes on after a commit, or without one. -/
def proceed (c : Consumer) (after : AfterCommit) (m : Moment) : ConsumerStep :=
  match after with
  | .goOn cursor => ({ c with phase := .waiting { cursor } }, [])
  | .stop => c.finishStopped
  | .fail e => c.react e m

/-- Commits what a session has collected, if anything. -/
def flush (c : Consumer) (s : Session) (after : AfterCommit) (m : Moment) : ConsumerStep :=
  match s.batch.range with
  | none => c.proceed after m
  | some range =>
    let collected := Metrics.batch c.id s.batch.events s.batch.intents.length
    match c.writer.enter m.recovered with
    | (writer, .error e, readings) =>
      reporting (collected ++ readings) ({ c with writer }.react e.toStream m)
    | (writer, .ok (), readings) =>
      let proposal :=
        { writer.proposal range s.batch.intents with time := m.now.nanos / Duration.perMilli }
      ({ c with writer, phase := .committing proposal after }, collected ++ readings)

/-- Goes on after a commit that reached a decision. If the checkpoint lies inside the range, the
session begins again from there, unless it was about to end. -/
def committed (c : Consumer) (after : AfterCommit) (outcome : CommitOutcome) (m : Moment) :
    ConsumerStep :=
  match outcome with
  | .applied | .alreadyApplied _ => { c with attempt := 0 }.proceed after m
  | .overlap _ =>
    match after with
    | .goOn _ => ({ c with phase := .starting }, [])
    | after => c.proceed after m

/-- Takes a proposal after an answer of the store. -/
def proposed (c : Consumer) (p : Checkpoint.Proposal) (after : AfterCommit) (m : Moment) :
    ConsumerStep :=
  match p.result? with
  | none => ({ c with phase := .committing p after }, [])
  | some result =>
    match c.writer.finish p.range result with
    | (writer, .error e, readings) =>
      reporting readings ({ c with writer }.react e.toStream m)
    | (writer, .ok outcome, readings) =>
      reporting readings ({ c with writer }.committed after outcome m)

/-! ## Sessions -/

/-- Begins a session. -/
def begin (c : Consumer) : ConsumerStep :=
  { c with stalledAt := none, phase := .reading }.publish .connecting

/-- Takes the record of the checkpoint; a missing one stands for zero. -/
def checkpointRead (c : Consumer) (answer : Except StoreFault (Option Store.Record)) (m : Moment) :
    ConsumerStep :=
  match answer.bind (Checkpoint.decodeRecord c.checkpoint) with
  | .error e => c.react e.toStream m
  | .ok found => ({ c with phase := .subscribing ((found.map Prod.fst).getD 0) }, [])

/-- Runs a change through the triggers. -/
def apply (c : Consumer) (s : Session) (change : Change) (m : Moment) : ConsumerStep :=
  match c.pipeline.apply change with
  | .error e => { c with stalledAt := some change.seq }.flush s (.fail e) m
  | .ok intents =>
    let s : Session := ⟨change.seq, s.batch.push change.seq intents⟩
    if s.batch.isFull c.settings.batch.maxEvents then c.flush s (.goOn s.cursor) m
    else ({ c with phase := .waiting s }, [])

/-- Takes a change; one at or before the last is a repetition. -/
def receive (c : Consumer) (s : Session) (change : Change) (m : Moment) : ConsumerStep :=
  reporting (Metrics.eventsReceived c.id 1) <|
    if change.seq ≤ s.cursor then
      ({ c with phase := .waiting s }, Metrics.eventsSkipped c.id "replayed")
    else
      match c.settings.rateLimit with
      | some _ => ({ c with phase := .throttled s change }, [])
      | none => c.apply s change m

/-- The fault of a feed that is silent. -/
def silence (c : Consumer) : StreamFault :=
  .transientSource "next_item"
    s!"no item within heartbeat timeout {c.settings.heartbeatTimeout.text}"

/-- The fault of a feed that has ended. -/
def ended : StreamFault := .transientSource "next_item" "feed closed"

/-- Takes an answer of the subscription. -/
def itemRead (c : Consumer) (s : Session) (answer : FeedAnswer) (m : Moment) : ConsumerStep :=
  match answer with
  | .error e => c.flush s (.fail e.toStream) m
  | .ok none => c.flush s (.fail ended) m
  | .ok (some .heartbeat) => (c, [])
  | .ok (some (.event change)) => c.receive s change m

/-- How long the next item may take. -/
def patience (c : Consumer) (s : Session) : Duration :=
  if s.batch.lingering then Duration.shorter c.settings.batch.linger c.settings.heartbeatTimeout
  else c.settings.heartbeatTimeout

/-- Takes the end of that time: what was collected has waited long enough, or else the feed is
silent. -/
def outOfPatience (c : Consumer) (s : Session) (m : Moment) : ConsumerStep :=
  if s.batch.isEmpty then c.react c.silence m else c.flush s (.goOn s.cursor) m

/-- Begins again after a pause or a backoff. -/
def restart (c : Consumer) : ConsumerStep := ({ c with phase := .starting }, [])

/-- Takes a signal; one that does not fit what the consumer waits for changes nothing. -/
def step (c : Consumer) (m : Moment) (signal : Signal) : ConsumerStep :=
  match c.phase, signal with
  | .starting, .start stop => if stop then c.finishStopped else c.begin
  | .reading, .read answer => c.checkpointRead answer m
  | .subscribing _, .subscribed (.error e) => c.react e.toStream m
  | .subscribing checkpoint, .subscribed (.ok ()) =>
    { c with phase := .waiting { cursor := checkpoint } }.publish .streaming
  | .waiting s, .item answer => c.itemRead s answer m
  | .waiting s, .elapsed => c.outOfPatience s m
  | .waiting s, .stop => c.flush s .stop m
  | .throttled s change, .passed => c.apply s change m
  | .committing p after, .read answer => c.proposed (p.onRead answer) after m
  | .committing p after, .wrote answer => c.proposed (p.onWrite answer) after m
  | .backingOff _, .elapsed => { c with resume := c.resume.cancel }.restart
  | .backingOff _, .resumed => { c with resume := c.resume.take }.restart
  | .backingOff _, .stop => { c with resume := c.resume.cancel }.finishStopped
  | .paused, .resumed => { c with resume := c.resume.take, attempt := 0 }.restart
  | .paused, .stop => { c with resume := c.resume.cancel }.finishStopped
  | _, _ => (c, [])

end Consumer

end ChangeRelay
