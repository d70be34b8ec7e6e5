import ChangeRelay.Proofs.Config.Waiting

/-!
# Used as written

Using a section of a configuration falls back to a default where a text is no duration, so that a
slip in a file would change the times of a relay without a word. No fallback is ever used for a
configuration that passed its check: each text that is read in use was read in the check, too. The
same check bounds the numbers and keeps the streams apart.
-/

namespace ChangeRelay

/-! ## Comparing with what is no number -/

namespace Double

variable {x y : Double}

theorem reading_of_isNaN (h : x.isNaN = true) : x.reading = .nan := by
  rw [isNaN, Bool.and_eq_true, decide_eq_true_iff, decide_eq_true_iff] at h
  simp only [reading, if_pos h.1, if_neg h.2]

/-- Only numbers are at most one another. -/
theorem isNaN_of_le (h : x.le y = true) : x.isNaN = false ∧ y.isNaN = false := by
  have hcompare : ∀ {a b : Double}, a.isNaN = true ∨ b.isNaN = true → a.compare? b = none := by
    intro a b hnan
    rcases hnan with ha | hb
    · simp only [compare?, reading_of_isNaN ha]
    · cases ha : a.reading <;> simp only [compare?, ha, reading_of_isNaN hb]
  constructor <;> rw [← Bool.not_eq_true] <;> intro hnan
  · rw [le, hcompare (.inl hnan)] at h
    cases h
  · rw [le, hcompare (.inr hnan)] at h
    cases h

end Double

namespace Config

/-! ## Sections -/

/-- The times that the texts of the settings stand for. -/
structure Times where
  heartbeat : Duration
  linger : Duration
  initial : Duration
  most : Duration
  connection : Duration
  recovery : Duration
  health : Duration
  drain : Duration

/-- Every text is read as its time. -/
structure Settings.ReadAs (s : Settings) (t : Times) : Prop where
  heartbeat : Duration.read s.consumer.heartbeatTimeout = .ok t.heartbeat
  linger : Duration.read s.consumer.batchLinger = .ok t.linger
  initial : Duration.read s.backoff.initialDelay = .ok t.initial
  most : Duration.read s.backoff.maxDelay = .ok t.most
  connection : Duration.read s.backoff.connectionTimeout = .ok t.connection
  recovery : Duration.read s.breaker.recoveryTimeout = .ok t.recovery
  health : Duration.read s.healthLogInterval = .ok t.health
  drain : Duration.read s.drainTimeout = .ok t.drain

/-- What a supervisor works with where the times and everything else is taken as it is written. -/
def Settings.supervisorAt (s : Settings) (t : Times) : SupervisorSettings where
  checkpoints := s.checkpoints
  consumer := {
    heartbeatTimeout := t.heartbeat
    batch := { maxEvents := s.consumer.maxBatchEvents, linger := t.linger }
    retry := {
      maxAttempts := Retry.forever
      initialDelay := t.initial
      maxDelay := t.most
      factor := s.backoff.factor
      jitter := s.backoff.jitter
      connectionTimeout := t.connection }
    rateLimit :=
      if s.consumer.rateLimitEnabled then
        some { burst := s.consumer.rateLimitBurst, refill := s.consumer.rateLimitPerSec }
      else none }
  circuit := {
    failureThreshold := s.breaker.failureThreshold
    successThreshold := s.breaker.successThreshold
    recoveryTimeout := t.recovery }
  drainTimeout := t.drain

theorem Consumer.of_validate {c : Consumer} (h : c.validate = .ok ()) :
    ∃ heartbeat linger, Duration.read c.heartbeatTimeout = .ok heartbeat ∧
      Duration.read c.batchLinger = .ok linger ∧ c.maxBatchEvents ≠ 0 := by
  obtain ⟨heartbeat, hheartbeat, h⟩ := bind_eq_ok.1 h
  obtain ⟨linger, hlinger, h⟩ := bind_eq_ok.1 h
  obtain ⟨_, hevents, -⟩ := bind_eq_ok.1 h
  exact ⟨heartbeat, linger, read_of_checkDuration hheartbeat, read_of_checkDuration hlinger,
    of_decide_eq_true (of_demand hevents)⟩

theorem Backoff.of_validate {b : Backoff} (h : b.validate = .ok ()) :
    ∃ initial most connection, Duration.read b.initialDelay = .ok initial ∧
      Duration.read b.maxDelay = .ok most ∧ Duration.read b.connectionTimeout = .ok connection ∧
      initial.nanos ≤ most.nanos ∧ (Double.ofNat 1).le b.factor = true ∧
      (Double.ofNat 0).le b.jitter = true ∧ b.jitter.le (.ofNat 1) = true := by
  obtain ⟨initial, hinitial, h⟩ := bind_eq_ok.1 h
  obtain ⟨most, hmost, h⟩ := bind_eq_ok.1 h
  obtain ⟨connection, hconnection, h⟩ := bind_eq_ok.1 h
  obtain ⟨_, hdelays, h⟩ := bind_eq_ok.1 h
  obtain ⟨_, hfactor, hjitter⟩ := bind_eq_ok.1 h
  have hjitter := Bool.and_eq_true_iff.1 (of_demand hjitter)
  exact ⟨initial, most, connection, read_of_checkDuration hinitial, read_of_checkDuration hmost,
    read_of_checkDuration hconnection, of_decide_eq_true (of_demand hdelays), of_demand hfactor,
    hjitter.1, hjitter.2⟩

theorem Breaker.of_validate {b : Breaker} (h : b.validate = .ok ()) :
    ∃ recovery, Duration.read b.recoveryTimeout = .ok recovery ∧ b.failureThreshold ≠ 0 ∧
      b.successThreshold ≠ 0 := by
  obtain ⟨recovery, hrecovery, h⟩ := bind_eq_ok.1 h
  have hthresholds := Bool.and_eq_true_iff.1 (of_demand h)
  exact ⟨recovery, read_of_checkDuration hrecovery, of_decide_eq_true hthresholds.1,
    of_decide_eq_true hthresholds.2⟩

end Config

/-- The bounds that the settings of a supervisor keep to. -/
structure SupervisorSettings.InBounds (s : SupervisorSettings) : Prop where
  delays : s.consumer.retry.initialDelay.nanos ≤ s.consumer.retry.maxDelay.nanos
  factor : (Double.ofNat 1).le s.consumer.retry.factor = true
  jitter : (Double.ofNat 0).le s.consumer.retry.jitter = true ∧
    s.consumer.retry.jitter.le (.ofNat 1) = true
  numbers : s.consumer.retry.factor.isNaN = false ∧ s.consumer.retry.jitter.isNaN = false
  batch : 1 ≤ s.consumer.batch.maxEvents
  thresholds : 1 ≤ s.circuit.failureThreshold ∧ 1 ≤ s.circuit.successThreshold

namespace Config

/-- Settings that passed their check are used as they are written, and are in bounds. -/
theorem Settings.of_validate {s : Settings} (h : s.validate = .ok ()) :
    (∃ t, s.ReadAs t ∧ s.supervisor = s.supervisorAt t ∧ s.healthInterval = t.health) ∧
      s.supervisor.InBounds := by
  obtain ⟨_, -, h⟩ := bind_eq_ok.1 h
  obtain ⟨health, hhealth, h⟩ := bind_eq_ok.1 h
  obtain ⟨drain, hdrain, h⟩ := bind_eq_ok.1 h
  obtain ⟨_, hconsumer, h⟩ := bind_eq_ok.1 h
  obtain ⟨_, hbackoff, hbreaker⟩ := bind_eq_ok.1 h
  obtain ⟨heartbeat, linger, hheartbeat, hlinger, hevents⟩ := Consumer.of_validate hconsumer
  obtain ⟨initial, most, connection, hinitial, hmost, hconnection, hdelays, hfactor, hlow, hhigh⟩ :=
    Backoff.of_validate hbackoff
  obtain ⟨recovery, hrecovery, hfailures, hsuccesses⟩ := Breaker.of_validate hbreaker
  have hhealth := read_of_checkDuration hhealth
  have hdrain := read_of_checkDuration hdrain
  let t : Times :=
    { heartbeat, linger, initial, most, connection, recovery, health, drain }
  have hsupervisor : s.supervisor = s.supervisorAt t := by
    simp only [supervisor, supervisorAt, Consumer.heartbeat, Consumer.batch, Consumer.rateLimit,
      Backoff.retry, Breaker.circuit, Settings.drain, if_neg hevents,
      durationOr_of_read hheartbeat, durationOr_of_read hlinger, durationOr_of_read hinitial,
      durationOr_of_read hmost, durationOr_of_read hconnection, durationOr_of_read hrecovery,
      durationOr_of_read hdrain]
    rfl
  refine ⟨⟨t, ?_, hsupervisor, durationOr_of_read hhealth⟩, ?_⟩
  · exact { heartbeat := hheartbeat, linger := hlinger, initial := hinitial, most := hmost,
            connection := hconnection, recovery := hrecovery, health := hhealth, drain := hdrain }
  · rw [hsupervisor]
    exact { delays := hdelays, factor := hfactor, jitter := ⟨hlow, hhigh⟩,
            numbers := ⟨(Double.isNaN_of_le hfactor).2, (Double.isNaN_of_le hhigh).1⟩,
            batch := Nat.pos_of_ne_zero hevents,
            thresholds := ⟨Nat.pos_of_ne_zero hfailures, Nat.pos_of_ne_zero hsuccesses⟩ }

/-- A change stream is read as its section says. -/
def Source.UsedAsWritten (s : Source) : Prop :=
  ∀ accepts retry feed, s.openBy accepts retry = .ok (.redis feed) →
    ∃ url text, s = .redis url feed.stream.key text feed.stream.batchSize ∧
      Duration.read text = .ok feed.stream.blockTimeout

theorem Source.of_validate {s : Source} {heartbeat : Duration}
    (h : s.validate heartbeat = .ok ()) : s.UsedAsWritten := by
  intro accepts retry feed hopen
  obtain ⟨url, key, text, count, rfl, hread, -⟩ := Source.read_blockTimeout h hopen
  simp only [openBy] at hopen
  split at hopen
  · cases hopen
  · cases hopen
    exact ⟨url, text, rfl, hread⟩

end Config

/-! ## Streams -/

namespace StreamDefinition

variable {d : StreamDefinition} {checkpoints : String}

/-- What the check of a definition has found out: the query has a matcher, and every trigger keeps
off the checkpoints. -/
theorem of_validate (h : d.validate checkpoints = .ok ()) :
    (∃ base, Dn.normalize d.query.baseDn = .ok base ∧
      d.query.matcher = .ok ⟨base, d.query.scope⟩) ∧
    ∀ spec ∈ d.chain, spec.target ≠ checkpoints := by
  unfold validate at h
  split at h
  · cases h
  split at h
  · cases h
  rename_i hquery
  split at h
  · cases h
  split at h
  · cases h
  rename_i hfind
  constructor
  · unfold Query.validate Query.matcher at hquery
    unfold Query.matcher
    split at hquery
    · cases hquery
    rename_i base hbase
    split at hquery
    · cases hquery
    rename_i hfilter
    exact ⟨base, hbase, rfl⟩
  · intro spec hspec
    have hnone := List.find?_eq_none.1 hfind spec hspec
    simpa using hnone

end StreamDefinition

namespace Configuration

variable {c : Configuration}

/-- Streams that pass their check one by one have names that are new, each to the ones before. -/
theorem of_validateStreams {checkpoints : String} {seen : List String}
    {ds : List StreamDefinition} (h : validateStreams checkpoints seen ds = .ok ()) :
    (ds.map StreamDefinition.consumer).Nodup ∧
      ∀ d ∈ ds, d.consumer ∉ seen ∧ d.validate checkpoints = .ok () := by
  induction ds generalizing seen with
  | nil => exact ⟨List.nodup_nil, fun _ hd => nomatch hd⟩
  | cons d rest ih =>
    unfold validateStreams at h
    split at h
    · cases h
    rename_i hd
    split at h
    · cases h
    rename_i hfresh
    obtain ⟨hnodup, hrest⟩ := ih h
    constructor
    · rw [List.map_cons, List.nodup_cons]
      refine ⟨?_, hnodup⟩
      intro hmem
      obtain ⟨e, he, hname⟩ := List.mem_map.1 hmem
      have hnew := (hrest e he).1
      exact hnew (hname ▸ List.mem_cons_self)
    · intro e he
      rcases List.mem_cons.1 he with rfl | he
      · exact ⟨fun hmem => hfresh (List.contains_iff_mem.2 hmem), hd⟩
      · obtain ⟨hnew, hvalid⟩ := hrest e he
        exact ⟨fun hmem => hnew (List.mem_cons_of_mem _ hmem), hvalid⟩

/-- The streams of a configuration have names of their own, queries that can be asked, and triggers
that keep off the checkpoints. -/
structure StreamsInOrder (c : Configuration) : Prop where
  names : (c.streams.map StreamDefinition.consumer).Nodup
  queries : ∀ d ∈ c.streams, ∃ base, Dn.normalize d.query.baseDn = .ok base ∧
    d.query.matcher = .ok ⟨base, d.query.scope⟩
  targets : ∀ d ∈ c.streams, ∀ spec ∈ d.chain, spec.target ≠ c.settings.checkpoints

/-- A configuration that passed its check is used as it is written: every duration that is read in
use is the one that its text says, all other settings are those of the file, and they are in
bounds; and its streams are in order. -/
theorem used_as_written_of_validate (hvalid : c.validate = .ok ()) :
    (∃ t, c.settings.ReadAs t ∧ c.settings.supervisor = c.settings.supervisorAt t ∧
      c.settings.healthInterval = t.health) ∧
    c.source.UsedAsWritten ∧ c.settings.supervisor.InBounds ∧ c.StreamsInOrder := by
  obtain ⟨_, hsettings, hvalid⟩ := bind_eq_ok.1 hvalid
  obtain ⟨_, hsource, hvalid⟩ := bind_eq_ok.1 hvalid
  obtain ⟨_, -, hstreams⟩ := bind_eq_ok.1 hvalid
  obtain ⟨hread, hbounds⟩ := Config.Settings.of_validate hsettings
  obtain ⟨hnames, heach⟩ := of_validateStreams hstreams
  refine ⟨hread, Config.Source.of_validate hsource, hbounds, ?_⟩
  exact { names := hnames
          queries := fun d hd => (StreamDefinition.of_validate (heach d hd).2).1
          targets := fun d hd => (StreamDefinition.of_validate (heach d hd).2).2 }

/-- Two streams by settings of which none is a default. -/
def brisk : Configuration where
  settings := {
    checkpoints := "marks"
    consumer := { heartbeatTimeout := "2s", maxBatchEvents := 8, batchLinger := "20ms" }
    backoff := {
      initialDelay := "200ms"
      maxDelay := "1min"
      factor := .ofNat 3
      jitter := .ofNat 0
      connectionTimeout := "4s" }
    breaker := { failureThreshold := 3, successThreshold := 1, recoveryTimeout := "10s" }
    healthLogInterval := "5s"
    drainTimeout := "1s" }
  source := .redis "redis://localhost:6379" "changes" "1s" 50
  destination := .memory
  streams := [⟨"people", { baseDn := "ou=People,dc=x" }, [{ kind := "mirror" }]⟩,
    ⟨"log", { baseDn := "dc=x" }, [{ kind := "changelog", bucket := some "changes" }]⟩]

theorem used_as_written_of_validate_brisk :
    brisk.validate = .ok () ∧
      brisk.settings.supervisor.consumer.heartbeatTimeout = .ofSeconds 2 ∧
      brisk.settings.supervisor.consumer.retry.maxDelay = .ofSeconds 60 ∧
      brisk.settings.healthInterval = .ofSeconds 5 ∧
      (∀ retry, ∃ feed, brisk.source.openBy Redis.isUrl retry = .ok (.redis feed) ∧
        feed.stream.key = "changes" ∧ feed.stream.batchSize = 50 ∧
        feed.stream.blockTimeout = .ofSeconds 1) ∧
      brisk.StreamsInOrder := by
  have hvalid : brisk.validate = .ok () := by decide +kernel
  obtain ⟨⟨t, hread, hsupervisor, hhealth⟩, hsource, -, hstreams⟩ :=
    used_as_written_of_validate hvalid
  have hheartbeat : t.heartbeat = .ofSeconds 2 :=
    Except.ok.inj (hread.heartbeat.symm.trans (by decide +kernel))
  have hmost : t.most = .ofSeconds 60 :=
    Except.ok.inj (hread.most.symm.trans (by decide +kernel))
  have hinterval : t.health = .ofSeconds 5 :=
    Except.ok.inj (hread.health.symm.trans (by decide +kernel))
  have haccepts : Redis.isUrl "redis://localhost:6379" = true := by decide +kernel
  refine ⟨hvalid, ?_, ?_, hhealth.trans hinterval, ?_, hstreams⟩
  · rw [hsupervisor]
    exact hheartbeat
  · rw [hsupervisor]
    exact hmost
  · intro retry
    obtain ⟨feed, hopen⟩ := Config.Source.openBy_redis retry "changes" "1s" 50 haccepts
    obtain ⟨url, text, hwritten, hblock⟩ := hsource _ retry feed hopen
    obtain ⟨-, hkey, htext, hsize⟩ := Config.Source.redis.inj hwritten
    rw [← htext] at hblock
    have hwait : feed.stream.blockTimeout = .ofSeconds 1 :=
      Except.ok.inj (hblock.symm.trans (by decide +kernel))
    exact ⟨feed, hopen, hkey.symm, hsize.symm, hwait⟩

end Configuration

end ChangeRelay
