import ChangeRelay.Feed.ChangeStream

/-!
# Reading a change log over a connection

A change log in a Redis stream together with the connection it is read over. A command that fails
drops the connection of the feed, and the next subscription sets up another; a subscription that
is open keeps its own.
-/

namespace ChangeRelay.Feed

open Redis (Reply Command Connector)

/-- What the server answers to the three questions about the start of a stream. -/
structure OpeningReplies where
  present : Reply := .nil
  info : Reply := .nil
  range : Reply := .nil

/-- A change log and its connection. -/
structure StreamFeed where
  stream : ChangeStream
  connector : Connector

namespace StreamFeed

/-- Drops the connection if a command failed on it. -/
def settle (f : StreamFeed) (result : Except FeedFault α) : StreamFeed :=
  match result with
  | .ok _ => f
  | .error _ => { f with connector := f.connector.invalidate }

/-- Makes sure of a connection, given the outcomes of the attempts at it. -/
def connect (f : StreamFeed) (outcomes : List (Except String Unit)) :
    StreamFeed × Except FeedFault Unit :=
  match f.connector.ensure outcomes with
  | (connector, some (.ok ())) => ({ f with connector }, .ok ())
  | (connector, some (.error e)) => ({ f with connector }, .error e.toFeed)
  | (connector, none) => ({ f with connector }, .error (.unavailable "connect" "no attempt left"))

/-- Opens a subscription to the changes after a position: the query is judged first, then the
connection is made sure of, and last the server is asked how far it has discarded the stream. -/
def subscribe (f : StreamFeed) (query : Query) (after : UInt64)
    (outcomes : List (Except String Unit)) (replies : OpeningReplies) :
    StreamFeed × List Command × Except FeedFault StreamSubscription :=
  match query.matcher with
  | .error e => (f, [], .error e)
  | .ok matcher =>
    match f.connect outcomes with
    | (f, .error e) => (f, [], .error e)
    | (f, .ok ()) =>
      let (asked, trimmed) :=
        f.stream.trimmedThrough after replies.present replies.info replies.range
      (f.settle trimmed, asked, do
        ChangeStream.checkGap (← trimmed) after
        return { stream := f.stream, matcher, cursor := after })

/-- Reads the next item of a subscription. -/
def next (f : StreamFeed) (s : StreamSubscription) (replies : List Reply) :
    StreamFeed × StreamSubscription × List Command × FeedAnswer :=
  let (s, asked, answer) := s.next replies
  match answer with
  | .error (.unavailable ..) => (f.settle answer, s, asked, answer)
  | _ => (f, s, asked, answer)

/-- Publishes a change. -/
def publish (f : StreamFeed) (seq : UInt64) (op : Operation) (dn : String)
    (attributes : Attributes) (time : Option String) (outcomes : List (Except String Unit))
    (reply : Reply) : StreamFeed × List Command × Except FeedFault Unit :=
  match f.connect outcomes with
  | (f, .error e) => (f, [], .error e)
  | (f, .ok ()) =>
    let result := ChangeStream.publishResult reply
    (f.settle result, [f.stream.publishCommand Zstd.store seq op dn attributes time], result)

end StreamFeed

end ChangeRelay.Feed
