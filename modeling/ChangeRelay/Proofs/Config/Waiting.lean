import ChangeRelay.Config.Configuration
import ChangeRelay.Proofs.Feed.Stream

/-!
# How long an idle read waits

A consumer gives up on a feed that is silent for its heartbeat timeout, so a read that finds nothing
has to come back before. A check compares the two times as they are written; what a read sends is
the waiting time in whole milliseconds, at least one, as a word. Both steps can break what was
checked: a time below a millisecond grows to one, and a number of milliseconds too large for a word
loses its upper part.
-/

namespace ChangeRelay

namespace Feed

/-! ## What a subscription sends -/

namespace StreamSubscription

variable {s t : StreamSubscription}

theorem stream_of_drain {entries : List StreamEntry} {found : Option (Except FeedFault Change)}
    (h : s.drain entries = (t, found)) : t.stream = s.stream := by
  induction entries generalizing s with
  | nil =>
      cases h
      rfl
  | cons e rest ih =>
      rw [drain] at h
      split at h
      · cases h
        rfl
      · split at h
        · cases h
          rfl
        · have hrest := ih h
          exact hrest

theorem stream_of_onReply {reply : Redis.Reply} {answer : Option FeedAnswer}
    (h : s.onReply reply = (t, answer)) : t.stream = s.stream := by
  unfold onReply at h
  split at h <;> cases h <;> rfl

/-- A call that finds something among what was read sends nothing. -/
theorem next_of_some {found : Except FeedFault Change}
    (hdrain : s.drain s.buffer = (t, some found)) (replies : List Redis.Reply) :
    (s.next replies).1 = t ∧ (s.next replies).2.1 = [] := by
  cases replies <;> cases found <;> simp [next, hdrain]

/-- A call stays with its stream, and all that it sends are reads of it. -/
theorem next_sends (s : StreamSubscription) (replies : List Redis.Reply) :
    (s.next replies).1.stream = s.stream ∧
      ∀ asked ∈ (s.next replies).2.1, ∃ cursor, asked = s.stream.readCommand cursor := by
  induction replies generalizing s with
  | nil =>
      rcases hdrain : s.drain s.buffer with ⟨t, _ | found⟩
      · simp [next, hdrain, stream_of_drain hdrain]
      · simp [next_of_some hdrain, stream_of_drain hdrain]
  | cons reply rest ih =>
      rcases hdrain : s.drain s.buffer with ⟨t, _ | found⟩
      · -- nothing that was read is in scope: the reply to a read decides
        have hstream := stream_of_drain hdrain
        rcases hreply : t.onReply reply with ⟨u, _ | answer⟩
        · obtain ⟨hsame, hreads⟩ := ih u
          rw [stream_of_onReply hreply, hstream] at hsame hreads
          rw [next_of_read rest hdrain hreply, hstream]
          refine ⟨hsame, ?_⟩
          intro asked hasked
          rcases List.mem_cons.1 hasked with rfl | hasked
          · exact ⟨t.cursor, rfl⟩
          · exact hreads asked hasked
        · rw [next_of_idle rest hdrain hreply, hstream]
          refine ⟨(stream_of_onReply hreply).trans hstream, ?_⟩
          intro asked hasked
          exact ⟨t.cursor, List.mem_singleton.1 hasked⟩
      · simp [next_of_some hdrain, stream_of_drain hdrain]

end StreamSubscription

theorem StreamFeed.stream_connect (f : StreamFeed) (outcomes : List (Except String Unit)) :
    (f.connect outcomes).1.stream = f.stream := by
  unfold connect
  split <;> rfl

theorem StreamFeed.stream_of_subscribe {f : StreamFeed} {query : Query} {after : UInt64}
    {outcomes : List (Except String Unit)} {replies : OpeningReplies} {s : StreamSubscription}
    (h : (f.subscribe query after outcomes replies).2.2 = .ok s) : s.stream = f.stream := by
  have hstream := f.stream_connect outcomes
  unfold subscribe at h
  split at h
  · cases h
  · split at h
    · cases h
    · rename_i f' hconnect
      obtain ⟨trimmed, -, h⟩ := bind_eq_ok.1 h
      obtain ⟨_, -, h⟩ := bind_eq_ok.1 h
      cases h
      rw [← hstream, hconnect]

/-- The subscriptions to a stream: they are opened by a feed on it, and read on any number of
times. -/
inductive StreamReader (stream : ChangeStream) : StreamSubscription → Prop where
  | opened {f : StreamFeed} {query : Query} {after : UInt64} {outcomes : List (Except String Unit)}
      {replies : OpeningReplies} {s : StreamSubscription} (hstream : f.stream = stream)
      (hopen : (f.subscribe query after outcomes replies).2.2 = .ok s) : StreamReader stream s
  | next {s : StreamSubscription} (h : StreamReader stream s) (replies : List Redis.Reply) :
      StreamReader stream (s.next replies).1

theorem StreamReader.stream_eq {stream : ChangeStream} {s : StreamSubscription}
    (h : StreamReader stream s) : s.stream = stream := by
  induction h with
  | opened hstream hopen => rw [StreamFeed.stream_of_subscribe hopen, hstream]
  | next _ replies ih => rw [(StreamSubscription.next_sends _ replies).1, ih]

/-! ## The waiting time that is sent -/

namespace ChangeStream

/-- Every read of the stream, whoever reads it, waits for as many milliseconds. -/
def Blocks (stream : ChangeStream) (millis : UInt64) : Prop :=
  ∀ s, StreamReader stream s → ∀ replies, ∀ asked ∈ (s.next replies).2.1,
    asked.take 3 = Redis.command ["XREAD", "BLOCK", toString millis]

theorem blocks_blockMillis (stream : ChangeStream) : stream.Blocks stream.blockMillis := by
  intro s hreader replies asked hasked
  obtain ⟨cursor, rfl⟩ := (s.next_sends replies).2 asked hasked
  rw [hreader.stream_eq]
  rfl

variable (s : ChangeStream)

theorem toNat_blockMillis :
    s.blockMillis.toNat =
      (if s.blockTimeout.millis = 0 then 1 else s.blockTimeout.millis) % wordLimit :=
  UInt64.toNat_ofNat'

/-- A read would wait for ever if its milliseconds are a multiple of what a word holds. -/
theorem blockMillis_eq_zero_iff :
    s.blockMillis = 0 ↔ s.blockTimeout.millis ≠ 0 ∧ wordLimit ∣ s.blockTimeout.millis := by
  rw [← UInt64.toNat_inj, toNat_blockMillis, UInt64.toNat_zero]
  split
  · simp [*, wordLimit]
  · simp [*, Nat.dvd_iff_mod_eq_zero]

/-- Where a waiting time is below a limit, what is sent is so too, unless the time is less than a
millisecond and the limit is not more than one. -/
theorem ofMillis_blockMillis_lt_iff {limit : Duration} (h : s.blockTimeout.nanos < limit.nanos) :
    (Duration.ofMillis s.blockMillis.toNat).nanos < limit.nanos ↔
      (Duration.ofMillis 1).nanos ≤ s.blockTimeout.nanos ∨
        (Duration.ofMillis 1).nanos < limit.nanos := by
  have hmillis : s.blockTimeout.millis = s.blockTimeout.nanos / 1000000 := rfl
  have hofMillis : ∀ n, (Duration.ofMillis n).nanos = n * 1000000 := fun _ => rfl
  rw [toNat_blockMillis, hofMillis, hofMillis, hmillis]
  split
  · rw [Nat.mod_eq_of_lt (by decide : 1 < wordLimit)]
    omega
  · have hcut := Nat.mod_le (s.blockTimeout.nanos / 1000000) wordLimit
    omega

end ChangeStream

end Feed

/-! ## What a check lets pass -/

namespace Config

variable {field text : String} {d : Duration}

theorem read_of_checkDuration (h : checkDuration field text = .ok d) :
    Duration.read text = .ok d := by
  unfold checkDuration at h
  split at h
  · cases h
    assumption
  · cases h

theorem durationOr_of_read {fallback : Duration} (h : Duration.read text = .ok d) :
    durationOr text fallback = d := by
  rw [durationOr, h]

theorem of_demand {condition : Bool} (h : demand condition text = .ok ()) : condition = true := by
  unfold demand at h
  split at h
  · assumption
  · cases h

theorem Settings.read_heartbeat {s : Settings} (h : s.validate = .ok ()) :
    Duration.read s.consumer.heartbeatTimeout = .ok s.consumer.heartbeat := by
  obtain ⟨_, -, h⟩ := bind_eq_ok.1 h
  obtain ⟨_, -, h⟩ := bind_eq_ok.1 h
  obtain ⟨_, -, h⟩ := bind_eq_ok.1 h
  obtain ⟨_, hconsumer, -⟩ := bind_eq_ok.1 h
  obtain ⟨heartbeat, hcheck, -⟩ := bind_eq_ok.1 hconsumer
  have hread := read_of_checkDuration hcheck
  rw [Consumer.heartbeat, durationOr_of_read hread, hread]

theorem Source.openBy_redis {accepts : String → Bool} {url : String} (retry : Retry)
    (streamKey blockTimeout : String) (batchSize : Nat) (h : accepts url = true) :
    ∃ feed, (Source.redis url streamKey blockTimeout batchSize).openBy accepts retry =
      .ok (.redis feed) := by
  simp [openBy, Redis.Connector.ofUrl, h]

/-- A stream whose source passed the check is opened with the waiting time as it is written, and
that is below the heartbeat timeout. -/
theorem Source.read_blockTimeout {s : Source} {heartbeat : Duration} {accepts : String → Bool}
    {retry : Retry} {feed : Feed.StreamFeed} (hvalid : s.validate heartbeat = .ok ())
    (hopen : s.openBy accepts retry = .ok (.redis feed)) :
    ∃ url key text count, s = .redis url key text count ∧
      Duration.read text = .ok feed.stream.blockTimeout ∧
      feed.stream.blockTimeout.nanos < heartbeat.nanos := by
  cases s with
  | memory => cases hopen
  | redis url key text count =>
      obtain ⟨_, -, hvalid⟩ := bind_eq_ok.1 hvalid
      obtain ⟨block, hcheck, hvalid⟩ := bind_eq_ok.1 hvalid
      have hread := read_of_checkDuration hcheck
      have hlt := of_decide_eq_true (of_demand hvalid)
      simp only [openBy] at hopen
      split at hopen
      · cases hopen
      · cases hopen
        exact ⟨url, key, text, count, rfl, by simp [durationOr_of_read hread, hread, hlt]⟩

end Config

namespace Configuration

/-- By a configuration that passed its check, every read of the stream waits as long as the
configuration says, in whole milliseconds, at least one, as a word. The check has compared the time
with the heartbeat timeout of the consumers. What is sent stands by that unless the time is less
than a millisecond and the timeout is not more than one; and it stands for waiting without end
exactly if the milliseconds are a multiple of what a word holds. -/
theorem reads_wait_of_valid {c : Configuration} {accepts : String → Bool} {retry : Retry}
    {feed : Feed.StreamFeed} (hvalid : c.validate = .ok ())
    (hopen : c.source.openBy accepts retry = .ok (.redis feed)) :
    let waiting := feed.stream.blockTimeout
    let patience := c.settings.supervisor.consumer.heartbeatTimeout
    (∃ url key text count, c.source = .redis url key text count ∧
        Duration.read text = .ok waiting) ∧
      Duration.read c.settings.consumer.heartbeatTimeout = .ok patience ∧
      waiting.nanos < patience.nanos ∧
      ∃ block : UInt64, feed.stream.Blocks block ∧
        block.toNat = (if waiting.millis = 0 then 1 else waiting.millis) % wordLimit ∧
        (block = 0 ↔ waiting.millis ≠ 0 ∧ wordLimit ∣ waiting.millis) ∧
        ((Duration.ofMillis block.toNat).nanos < patience.nanos ↔
          (Duration.ofMillis 1).nanos ≤ waiting.nanos ∨
            (Duration.ofMillis 1).nanos < patience.nanos) := by
  obtain ⟨_, hsettings, hvalid⟩ := bind_eq_ok.1 hvalid
  obtain ⟨_, hsource, -⟩ := bind_eq_ok.1 hvalid
  obtain ⟨url, key, text, count, heq, hread, hlt⟩ := Config.Source.read_blockTimeout hsource hopen
  exact ⟨⟨url, key, text, count, heq, hread⟩, Config.Settings.read_heartbeat hsettings, hlt,
    feed.stream.blockMillis, feed.stream.blocks_blockMillis, feed.stream.toNat_blockMillis,
    feed.stream.blockMillis_eq_zero_iff, feed.stream.ofMillis_blockMillis_lt_iff hlt⟩

/-- A stream read with a waiting time, for consumers with a heartbeat timeout. -/
def timed (waiting patience : String) : Configuration where
  settings := { consumer := { heartbeatTimeout := patience } }
  source := .redis "redis://localhost:6379" "changes" waiting 100
  destination := .memory

/-- Half a millisecond is less than 800 microseconds, but a read waits for a whole one; and the
milliseconds of a time near the greatest there is come to none, which is waiting without end. -/
theorem reads_wait_of_valid_too_long :
    ((timed "500us" "800us").validate = .ok () ∧
      ∃ feed, (timed "500us" "800us").source.build .daemon = .ok (.redis feed) ∧
        feed.stream.Blocks 1) ∧
    (timed "18446744073709551s 616ms" "18446744073709552s").validate = .ok () ∧
      ∃ feed, (timed "18446744073709551s 616ms" "18446744073709552s").source.build .daemon =
        .ok (.redis feed) ∧ feed.stream.Blocks 0 := by
  have haccepts : Redis.isUrl "redis://localhost:6379" = true := by decide +kernel
  constructor
  · have hvalid : (timed "500us" "800us").validate = .ok () := by decide +kernel
    obtain ⟨feed, hopen⟩ := Config.Source.openBy_redis .daemon "changes" "500us" 100 haccepts
    obtain ⟨⟨_, _, _, _, ⟨⟩, hread⟩, -, -, block, hblocks, hmillis, -⟩ :=
      reads_wait_of_valid hvalid hopen
    have hwaiting : feed.stream.blockTimeout = ⟨500000⟩ :=
      Except.ok.inj (hread.symm.trans (by decide +kernel))
    have hblock : block = 1 := UInt64.toNat_inj.1 (by rw [hmillis, hwaiting]; rfl)
    exact ⟨hvalid, feed, hopen, hblock ▸ hblocks⟩
  · have hvalid : (timed "18446744073709551s 616ms" "18446744073709552s").validate = .ok () := by
      decide +kernel
    obtain ⟨feed, hopen⟩ :=
      Config.Source.openBy_redis .daemon "changes" "18446744073709551s 616ms" 100 haccepts
    obtain ⟨⟨_, _, _, _, ⟨⟩, hread⟩, -, -, block, hblocks, -, hzero, -⟩ :=
      reads_wait_of_valid hvalid hopen
    have hwaiting : feed.stream.blockTimeout = ⟨18446744073709551616000000⟩ :=
      Except.ok.inj (hread.symm.trans (by decide +kernel))
    have hblock : block = 0 := hzero.2 (by rw [hwaiting]; decide)
    exact ⟨hvalid, feed, hopen, hblock ▸ hblocks⟩

end Configuration

end ChangeRelay
