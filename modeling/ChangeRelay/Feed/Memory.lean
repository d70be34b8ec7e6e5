import ChangeRelay.Feed.Item
import ChangeRelay.Time.Duration

/-!
# Change log in memory

A change log with any number of subscriptions, and switches for the ways in which a real feed
fails. A subscription reads the log at its own cursor. Reading takes two steps: it looks for the
next change in scope, and hands it out; only then its cursor passes the change, so that a reader
who gives up in between is given it again.
-/

namespace ChangeRelay.Feed

/-- An entry of the log. -/
structure LogEntry where
  attributes : Attributes
  metadata : Json.Fields
deriving DecidableEq

/-- A change log. -/
structure Memory where
  /-- Entries by position, in ascending order. -/
  entries : List (UInt64 × LogEntry) := []
  /-- Highest position discarded. -/
  trimmedThrough : UInt64 := 0
  closed : Bool := false
  /-- Time after which a waiting reader is given a heartbeat; none for never. -/
  heartbeat : Option Duration := some (.ofSeconds 1)
  /-- Subscriptions still to be refused. -/
  failSubscribes : Nat := 0
  /-- Changes after which the next subscription is dropped. -/
  disconnectAfter : Option Nat := none
  /-- Start positions of the subscriptions, in order. -/
  subscriptions : List UInt64 := []
  /-- Numbers of the changes handed out, in order. -/
  delivered : List UInt64 := []

namespace Memory

/-- Puts an entry at a position, in place of one that is there. -/
def publishRaw (f : Memory) (seq : UInt64) (entry : LogEntry) : Memory :=
  { f with entries := Assoc.insert seq entry f.entries }

/-- Appends a change as a directory would. -/
def publish (f : Memory) (seq : UInt64) (op : Operation) (dn : String) (attributes : Attributes) :
    Memory :=
  f.publishRaw seq ⟨attributes, entryMetadata dn seq op⟩

/-- Discards every entry up to a position. -/
def trimThrough (f : Memory) (seq : UInt64) : Memory :=
  { f with
    entries := f.entries.filter fun p => seq + 1 ≤ p.1
    trimmedThrough := if f.trimmedThrough ≤ seq then seq else f.trimmedThrough }

/-- The highest position in the log. -/
def latest? (f : Memory) : Option UInt64 := f.entries.getLast?.map Prod.fst

/-- The oldest position that a subscription can be given. -/
def oldest (f : Memory) : UInt64 :=
  match f.entries with
  | (seq, _) :: _ => seq
  | [] => f.trimmedThrough + 1

end Memory

/-- A reader's place in the log. -/
structure Subscription where
  matcher : Matcher
  cursor : UInt64
  /-- Changes left until the subscription is dropped; none if it is not. -/
  remaining : Option Nat := none
deriving DecidableEq

/-- Opens a subscription to the changes after a position. -/
def Memory.subscribe (f : Memory) (query : Query) (after : UInt64) :
    Memory × Except FeedFault Subscription :=
  match query.matcher with
  | .error e => (f, .error e)
  | .ok matcher =>
    if 0 < f.failSubscribes then
      ({ f with failSubscribes := f.failSubscribes - 1 },
        .error (.unavailable "subscribe" "injected failure"))
    else if after < f.trimmedThrough then (f, .error (.gap (after + 1) f.oldest))
    else
      ({ f with subscriptions := f.subscriptions ++ [after], disconnectAfter := none },
        .ok { matcher, cursor := after, remaining := f.disconnectAfter })

/-- What a look at the log finds. -/
inductive Finding where
  /-- A change in scope, not yet handed out. -/
  | found (change : Change)
  | fault (f : FeedFault)
  /-- Nothing beyond the cursor. -/
  | nothing
deriving DecidableEq

/-- The change of an entry, which has to carry the number of its position. -/
def LogEntry.change (entry : LogEntry) (seq : UInt64) : Except FeedFault Change :=
  match Change.ofMetadata entry.attributes entry.metadata with
  | .error e => .error (e.pinnedTo seq)
  | .ok c =>
    if c.seq = seq then .ok c
    else .error (.malformed (some seq) s!"log position {seq} carries changeNumber {c.seq}")

namespace Subscription

/-- Goes through the entries beyond the cursor up to the first that matters. The cursor passes
entries out of scope and malformed ones. -/
def scan (s : Subscription) : List (UInt64 × LogEntry) → Subscription × Finding
  | [] => (s, .nothing)
  | (seq, entry) :: rest =>
    match entry.change seq with
    | .error e => ({ s with cursor := seq }, .fault e)
    | .ok c =>
      if s.matcher.accepts c.target then (s, .found c) else scan { s with cursor := seq } rest

/-- Looks for the next change in scope. -/
def look (s : Subscription) (f : Memory) : Subscription × Finding :=
  if s.remaining = some 0 then (s, .fault (.unavailable "next" "subscription dropped"))
  else s.scan (f.entries.filter fun p => s.cursor < p.1)

/-- Hands out a change that was found: from here on the cursor is past it. -/
def deliver (s : Subscription) (f : Memory) (c : Change) : Memory × Subscription :=
  ({ f with delivered := f.delivered ++ [c.seq] },
    { s with cursor := c.seq, remaining := s.remaining.map (· - 1) })

/-- Reads without waiting; the answer is none if the reader has to wait. -/
def poll (s : Subscription) (f : Memory) : Memory × Subscription × Option FeedAnswer :=
  match s.look f with
  | (s, .fault e) => (f, s, some (.error e))
  | (s, .found c) =>
    let (f, s) := s.deliver f c
    (f, s, some (.ok (some (.event c))))
  | (s, .nothing) => (f, s, if f.closed then some (.ok none) else none)

end Subscription

end ChangeRelay.Feed
