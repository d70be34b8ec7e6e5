import ChangeRelay.Intent
import ChangeRelay.Time.Duration

/-!
# Commit batches

Changes that passed the triggers are collected and committed together, as one range of sequence
numbers with all their intents.
-/

namespace ChangeRelay

/-- Sequence numbers from `first` to `last`, both included. -/
structure SeqRange where
  first : UInt64
  last : UInt64
deriving DecidableEq, Repr

/-- Changes waiting to be committed. -/
structure Batch where
  range : Option SeqRange := none
  intents : List Intent := []
  /-- Number of changes, with or without intents. -/
  events : Nat := 0
  /-- Whether the wait for further changes has begun. -/
  lingering : Bool := false
deriving DecidableEq

namespace Batch

/-- Adds the intents of one change. -/
def push (b : Batch) (seq : UInt64) (intents : List Intent) : Batch :=
  { range := some (match b.range with
      | none => ⟨seq, seq⟩
      | some r => ⟨r.first, seq⟩)
    intents := b.intents ++ intents
    events := b.events + 1
    lingering := match b.range with
      | none => true
      | some _ => b.lingering }

/-- Nothing is left of a batch once it was committed. -/
def clear (_ : Batch) : Batch := {}

def isEmpty (b : Batch) : Bool := b.events = 0

/-- Whether a batch has to be committed for its size. -/
def isFull (b : Batch) (maxEvents : Nat) : Bool :=
  (if maxEvents = 0 then 1 else maxEvents) ≤ b.events

/-- What is left of the wait for further changes, of which some time has passed; none if it has not
begun. -/
def remainingLinger (b : Batch) (linger passed : Duration) : Option Duration :=
  if b.lingering then some ⟨linger.nanos - passed.nanos⟩ else none

end Batch

end ChangeRelay
