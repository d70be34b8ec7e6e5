import ChangeRelay.Feed.Memory

/-!
# Reads step by step

A read of a subscription stops at several points and lets others in: before it looks at the log,
before it hands a change out, before it looks whether the feed has ended, before it learns how long
to wait, and while there is nothing new. From one point to the next it goes in one step. Whoever
asked for it may give it up at any of them; the subscription then stands where the read has left it.
-/

namespace ChangeRelay.Feed

/-- Where a read stands. -/
inductive ReadPoint where
  /-- Is about to look at the log. -/
  | log
  /-- Is about to hand a change out. -/
  | delivery (change : Change)
  /-- Found nothing, and is about to look whether the feed has ended. -/
  | drained
  /-- Is about to learn how long to wait. -/
  | interval
  /-- Waits for news; given an interval, for no longer than that. -/
  | news (interval : Option Duration)
deriving DecidableEq

/-- A read under way. -/
structure Read where
  point : ReadPoint := .log
  /-- There was news since it last set out to look at the log. -/
  woken : Bool := false
deriving DecidableEq

/-- A read after a step. -/
inductive ReadStep where
  | goesOn (read : Read)
  | returns (answer : FeedAnswer)

/-- The first entry beyond a position. -/
def Memory.beyond? (f : Memory) (position : UInt64) : Option (UInt64 × LogEntry) :=
  f.entries.find? fun p => position < p.1

namespace Subscription

/-- Sets out to look at the log, unless the subscription is dropped. -/
def setOut (s : Subscription) : ReadStep :=
  if s.remaining = some 0 then .returns (.error (.unavailable "next" "subscription dropped"))
  else .goesOn {}

/-- Looks at the first entry beyond the cursor. The cursor passes a malformed entry and one out of
scope, but not one that is to be handed out. -/
def inspect (s : Subscription) (f : Memory) (woken : Bool) : Subscription × ReadStep :=
  match f.beyond? s.cursor with
  | none => (s, .goesOn ⟨.drained, woken⟩)
  | some (seq, entry) =>
    match entry.change seq with
    | .error e => ({ s with cursor := seq }, .returns (.error e))
    | .ok c =>
      if s.matcher.accepts c.target then (s, .goesOn ⟨.delivery c, woken⟩)
      else ({ s with cursor := seq }, s.setOut)

/-- One step of a read; none while it waits for news. -/
def resume (s : Subscription) (f : Memory) (read : Read) :
    Option (Memory × Subscription × ReadStep) :=
  match read.point with
  | .log => some (f, s.inspect f read.woken)
  | .delivery c =>
    let (f, s) := s.deliver f c
    some (f, s, .returns (.ok (some (.event c))))
  | .drained =>
    some (f, s, if f.closed then .returns (.ok none) else .goesOn { read with point := .interval })
  | .interval => some (f, s, .goesOn { read with point := .news f.heartbeat })
  | .news _ => if read.woken then some (f, s, s.setOut) else none

end Subscription

end ChangeRelay.Feed
