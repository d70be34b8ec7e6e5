import ChangeRelay.Digest.Sha256
import ChangeRelay.Feed.Item
import ChangeRelay.Json.Reader
import ChangeRelay.Redis.Connector
import ChangeRelay.Redis.Reply
import ChangeRelay.Zstd.Frame

/-!
# Change log in a Redis stream

One stream entry per change, with the change's number as the first part of the entry's ID. Reading
on after a change is one command; what the server discarded is found out when a subscription
opens.
-/

namespace ChangeRelay.Feed

open Redis (Reply Command)

/-- The change number in an entry ID: two words joined by a dash, of which the first counts; a
missing second one is zero. -/
def parseChangeId? (id : String) : Option UInt64 :=
  let cs := id.toList
  let second := match cs.dropWhile (· ≠ '-') with
    | _ :: rest => rest
    | [] => ['0']
  match (Text.readUnsigned? second).bind Text.wordOfNat? with
  | none => none
  | some _ => (Text.readUnsigned? (cs.takeWhile (· ≠ '-'))).bind Text.wordOfNat?

/-- The entry ID of a change. -/
def changeId (seq : UInt64) : String := s!"{seq}-0"

/-- Hexadecimal digest of a payload. -/
def contentHash (bytes : Bytes) : String := Sha256.hexDigest bytes

/-- The octets of a payload, expanded if it is compressed. -/
def expand (bytes : Bytes) : Except String Bytes :=
  match Zstd.expand? bytes with
  | some out => .ok out
  | none => .error "zstd decode: damaged frame"

/-- An entry of the stream. -/
structure StreamEntry where
  id : String
  fields : List (String × Reply)

namespace StreamEntry

/-- A field that has to be there, as a text. -/
def textField (e : StreamEntry) (name : String) : Except String String :=
  match Assoc.find? name e.fields with
  | none => .error s!"Missing field: {name}"
  | some (.bulk bytes) =>
    match Text.decodeUtf8 bytes with
    | .ok s => .ok s
    | .error fault => .error s!"Invalid UTF-8 in {name}: {fault.message}"
  | some (.simple s) => .ok s
  | some v => .error s!"Unexpected type for field {name}: {v.describe}"

/-- A field that has to be there, as octets. -/
def bytesField (e : StreamEntry) (name : String) : Except String Bytes :=
  match Assoc.find? name e.fields with
  | none => .error s!"Missing field: {name}"
  | some (.bulk bytes) => .ok bytes
  | some (.simple s) => .ok (Text.encodeUtf8 s)
  | some v => .error s!"Unexpected type for field {name}: {v.describe}"

/-- A field that may be left out. -/
def optionalTextField (e : StreamEntry) (name : String) : Except String (Option String) :=
  if Assoc.contains name e.fields then (e.textField name).map some else .ok none

/-- Checks a payload against the digest that an entry states. -/
def checkHash (e : StreamEntry) (changes : Bytes) : Except String Unit := do
  match ← e.optionalTextField "hash" with
  | none => return ()
  | some expected =>
    let actual := contentHash changes
    if expected = actual then return ()
    else .error s!"content hash mismatch (expected {expected}, got {actual})"

/-- The attributes that a payload holds. -/
def decodeAttributes (changes : Bytes) : Except String Attributes :=
  match Text.decodeUtf8 changes with
  | .error fault => .error s!"changes: {fault.message}"
  | .ok text =>
    match Json.Value.read? text with
    | none => .error "changes: not a JSON text"
    | some v =>
      match Attributes.decode v with
      | .ok a => .ok a
      | .error e => .error s!"changes: {e.message}"

/-- Attributes and metadata of an entry, or the reason why it has none. -/
def contents (e : StreamEntry) : Except String (Attributes × Json.Fields) := do
  let dn ← e.textField "dn"
  let changes ← expand (← e.bytesField "changes")
  e.checkHash changes
  let attributes ← decodeAttributes changes
  let controls ← match Json.Value.parse? (← e.textField "controls") with
    | some v => pure v
    | none => .error "controls: not a JSON text"
  let time ← e.optionalTextField "changetime"
  return (attributes, Assoc.ofList ([("dn", .string dn), ("controls", controls),
    ("stream_id", .string e.id)] ++ (time.map fun t => ("changetime", .string t)).toList))

/-- The change of an entry. Every fault is pinned to the number in the entry's ID, if it has one. -/
def change (e : StreamEntry) : Except FeedFault Change :=
  match parseChangeId? e.id with
  | none => .error (.malformed none s!"bad entry id {e.id}")
  | some seq =>
    match e.contents with
    | .error reason => .error (.malformed (some seq) reason)
    | .ok (attributes, metadata) =>
      match Change.ofMetadata attributes metadata with
      | .error fault => .error (fault.pinnedTo seq)
      | .ok c =>
        if c.seq = seq then .ok c
        else .error (.malformed (some seq) s!"entry {e.id} carries changeNumber {c.seq}")

end StreamEntry

/-- A change log in a Redis stream. -/
structure ChangeStream where
  key : String
  /-- How long an idle read waits. -/
  blockTimeout : Duration
  /-- Entries of one read; 0 counts as 1. -/
  batchSize : Nat

namespace ChangeStream

/-- Payloads from this size on are compressed. -/
def compressFrom : Nat := 4096

/-- What is stored of a change's attributes; `compress` writes a frame. -/
def payload (compress : Bytes → Bytes) (changes : Bytes) : Bytes :=
  if compressFrom ≤ changes.length then compress changes else changes

/-- The fields of the entry that publishes a change, in order. -/
def publishFields (compress : Bytes → Bytes) (seq : UInt64) (op : Operation) (dn : String)
    (attributes : Attributes) (time : Option String) : List (String × Bytes) :=
  let changes := Text.encodeUtf8 attributes.toValue.text
  let controls := ((Assoc.find? "controls" (entryMetadata dn seq op)).getD .null).text
  [("dn", Text.encodeUtf8 dn), ("changes", payload compress changes),
    ("hash", Text.encodeUtf8 (contentHash changes)), ("controls", Text.encodeUtf8 controls)] ++
    (time.map fun t => ("changetime", Text.encodeUtf8 t)).toList

/-- The command that publishes a change. -/
def publishCommand (s : ChangeStream) (compress : Bytes → Bytes) (seq : UInt64) (op : Operation)
    (dn : String) (attributes : Attributes) (time : Option String) : Command :=
  Redis.command ["XADD", s.key, changeId seq] ++
    (publishFields compress seq op dn attributes time).flatMap fun p => [Text.encodeUtf8 p.1, p.2]

/-- What the reply to it says. -/
def publishResult (reply : Reply) : Except FeedFault Unit :=
  match reply.text? with
  | some _ => .ok ()
  | none => .error (.unavailable "XADD" "unexpected reply")

/-- The fault of a command whose reply cannot be used. -/
def badReply : FeedFault := .unavailable "redis" "unexpected reply"

/-- A named field of the server's description of a stream. -/
def infoField? (info : Reply) (name : String) : Option String :=
  match info with
  | .array items => inArray items
  | .map pairs => (pairs.find? fun p => p.1.string? = some name).bind fun p => p.2.string?
  | _ => none
where
  /-- Looks at every other item of a flat list of names and values. -/
  inArray : List Reply → Option String
    | k :: v :: rest => if k.string? = some name then v.string? else inArray rest
    | _ => none

/-- The ID of the oldest entry in a reply that lists it. -/
def oldestEntry? (range : Reply) : Option (Option String) :=
  match range with
  | .nil => some none
  | .array items =>
    (items.mapM fun (item : Reply) => match item with
      | .array [id, fields] => (fields.fields?).bind fun _ => id.text?
      | _ => none).map List.head?
  | _ => none

/-- How far the server has discarded the stream, with the commands sent to find out. The server
says so itself, or else the oldest entry that it still has must do. -/
def trimmedThrough (s : ChangeStream) (after : UInt64) (present info range : Reply) :
    List Command × Except FeedFault UInt64 :=
  let asked := [Redis.command ["EXISTS", s.key]]
  match present.bool? with
  | none => (asked, .error badReply)
  | some false => (asked, .ok 0)
  | some true =>
    let asked := asked ++ [Redis.command ["XINFO", "STREAM", s.key]]
    match info with
    | .error _ => (asked, .error badReply)
    | info =>
      match infoField? info "max-deleted-entry-id" with
      | some id => (asked, .ok ((parseChangeId? id).getD 0))
      | none =>
        let asked := asked ++ [Redis.command ["XRANGE", s.key, "-", "+", "COUNT", "1"]]
        match oldestEntry? range with
        | none => (asked, .error badReply)
        | some oldest =>
          match oldest.bind parseChangeId? with
          | some first => (asked, .ok (if after + 1 < first then first - 1 else 0))
          | none => (asked, .ok 0)

/-- Whether a subscription after a position can open, given how far the stream is discarded. -/
def checkGap (trimmed after : UInt64) : Except FeedFault Unit :=
  if after < trimmed then .error (.gap (after + 1) (trimmed + 1)) else .ok ()

/-- The waiting time of an idle read in milliseconds: at least one, as a word. -/
def blockMillis (s : ChangeStream) : UInt64 :=
  UInt64.ofNat (if s.blockTimeout.millis = 0 then 1 else s.blockTimeout.millis)

/-- The number of entries of one read. -/
def readCount (s : ChangeStream) : Nat := if s.batchSize = 0 then 1 else s.batchSize

/-- The command that reads on after a position. -/
def readCommand (s : ChangeStream) (cursor : UInt64) : Command :=
  Redis.command ["XREAD", "BLOCK", toString s.blockMillis, "COUNT", toString s.readCount,
    "STREAMS", s.key, changeId cursor]

/-- The entries of a reply to it, in order; none if it is not well formed. -/
def entries? (reply : Reply) : Option (List StreamEntry) := do
  let rows ← (← reply.items?).mapM Reply.pairs?
  let keys ← rows.flatten.mapM fun p => do
    let _ ← p.1.text?
    let rows ← (← p.2.items?).mapM Reply.pairs?
    rows.flatten.mapM fun (e : Reply × Reply) => do
      return { id := ← e.1.text?, fields := ← e.2.fields? : StreamEntry }
  return keys.flatten

end ChangeStream

/-- A reader's place in the stream. -/
structure StreamSubscription where
  stream : ChangeStream
  matcher : Matcher
  /-- The last change handed out, or skipped for its scope. -/
  cursor : UInt64
  /-- Entries read, but not yet handed out. -/
  buffer : List StreamEntry := []

namespace StreamSubscription

/-- Goes through buffered entries up to the first that matters. A malformed entry stays where it
is, so that the reader gets no further. -/
def drain (s : StreamSubscription) :
    List StreamEntry → StreamSubscription × Option (Except FeedFault Change)
  | [] => ({ s with buffer := [] }, none)
  | e :: rest =>
    match e.change with
    | .error f => ({ s with buffer := e :: rest }, some (.error f))
    | .ok c =>
      if s.matcher.accepts c.target then
        ({ s with cursor := c.seq, buffer := rest }, some (.ok c))
      else drain { s with cursor := c.seq } rest

/-- Takes the reply to a read; an idle one ends it with a heartbeat. -/
def onReply (s : StreamSubscription) (reply : Reply) :
    StreamSubscription × Option FeedAnswer :=
  match ChangeStream.entries? reply with
  | none => (s, some (.error (.unavailable "XREAD" "unexpected reply")))
  | some [] => (s, some (.ok (some .heartbeat)))
  | some entries => ({ s with buffer := s.buffer ++ entries }, none)

/-- The next item, given the server's replies in order; once they are used up it answers nil. The
commands sent come with it. -/
def next (s : StreamSubscription) (replies : List Reply) :
    StreamSubscription × List Command × FeedAnswer :=
  match s.drain s.buffer with
  | (s, some (.error f)) => (s, [], .error f)
  | (s, some (.ok c)) => (s, [], .ok (some (.event c)))
  | (s, none) =>
    let asked := s.stream.readCommand s.cursor
    match replies with
    | [] => (s, [asked], .ok (some .heartbeat))
    | reply :: rest =>
      match s.onReply reply with
      | (s, some answer) => (s, [asked], answer)
      | (s, none) =>
        let (s, more, answer) := next s rest
        (s, asked :: more, answer)
termination_by structural replies

end StreamSubscription

end ChangeRelay.Feed
