import ChangeRelay.Checkpoint
import ChangeRelay.Circuit
import ChangeRelay.Metrics

/-!
# The destination writer

The only way by which a stream changes the destination: a proposal behind a circuit breaker. What
the proposal found out is folded into what the consumer needs for its next step.
-/

namespace ChangeRelay

open Checkpoint (Proposal)

/-- How a commit that reached a decision ended. -/
inductive CommitOutcome where
  /-- Data and checkpoint are written. -/
  | applied
  /-- The checkpoint covers the whole range already. -/
  | alreadyApplied (current : UInt64)
  /-- The checkpoint lies inside the range: the consumer has to resume from there. -/
  | overlap (current : UInt64)
deriving DecidableEq, Repr

/-- The writer of one consumer. -/
structure Writer where
  consumer : String
  /-- Where checkpoints are kept. -/
  bucket : String
  circuit : Circuit

namespace Writer

/-- A writer whose breaker is closed. -/
def new (consumer bucket : String) (circuit : Circuit.Config) : Writer :=
  { consumer, bucket, circuit := { name := "commit:" ++ consumer, config := circuit } }

/-- A proposal of this writer's consumer. -/
def proposal (w : Writer) (range : SeqRange) (intents : List Intent) : Proposal :=
  { bucket := w.bucket, consumer := w.consumer, range, intents }

/-- Asks the breaker for a commit; `recovered` says that an open breaker has waited long enough. -/
def enter (w : Writer) (recovered : Bool) :
    Writer × Except StoreFault Unit × List Metrics.Reading :=
  match w.circuit.enter recovered with
  | (circuit, true) => ({ w with circuit }, .ok (), [])
  | (circuit, false) =>
    ({ w with circuit }, .error (.unavailable "commit" "circuit breaker open"),
      Metrics.circuitCall circuit.name "rejected" ++ Metrics.commit w.consumer "rejected")

/-- The outcome of a proposal for a range. -/
def outcomeOf (range : SeqRange) : Checkpoint.Outcome → CommitOutcome
  | .applied => .applied
  | .conflict current => if range.last ≤ current then .alreadyApplied current else .overlap current

/-- What is reported of an outcome. -/
def report (w : Writer) (range : SeqRange) : CommitOutcome → List Metrics.Reading
  | .applied => Metrics.commit w.consumer "applied" ++ Metrics.checkpoint w.consumer range.last
  | .alreadyApplied _ => Metrics.commit w.consumer "already_applied"
  | .overlap _ => Metrics.commit w.consumer "overlap"

/-- Takes the result of the proposal that the breaker let through. -/
def finish (w : Writer) (range : SeqRange) (result : Except StoreFault Checkpoint.Outcome) :
    Writer × Except StoreFault CommitOutcome × List Metrics.Reading :=
  match result with
  | .error e =>
    ({ w with circuit := w.circuit.finish true }, .error e,
      Metrics.circuitCall w.circuit.name "failure" ++ Metrics.commit w.consumer "error")
  | .ok found =>
    let outcome := outcomeOf range found
    ({ w with circuit := w.circuit.finish false }, .ok outcome,
      Metrics.circuitCall w.circuit.name "success" ++ w.report range outcome)

/-- A whole commit against a store that nobody else uses meanwhile. -/
def commit (w : Writer) (recovered : Bool)
    (get : σ → Store.Address → Except StoreFault (Option Store.Record))
    (put : σ → List Store.BatchOp → σ × Except StoreFault Unit)
    (s : σ) (range : SeqRange) (intents : List Intent) :
    Writer × σ × Except StoreFault CommitOutcome × List Metrics.Reading :=
  match w.enter recovered with
  | (w, .error e, readings) => (w, s, .error e, readings)
  | (w, .ok (), _) =>
    let (s, result) := (w.proposal range intents).run get put s
    let (w, outcome, readings) := w.finish range result
    (w, s, outcome, readings)

end Writer

end ChangeRelay
