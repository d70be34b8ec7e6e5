import ChangeRelay.Proofs.Stream.Faults

/-!
# Steps and the health of a consumer

What each step of a consumer publishes, and what it does to that which outlives a session: the
failed sessions that are counted, the change that the triggers refused, and the way in which an
operator wakes the consumer. A step either has the session return a fault, which is reacted to, or
it is one of a few that say little; whatever is proved of healths is proved from these cases.
-/

namespace ChangeRelay

open Checkpoint (Proposal)

/-! ## Publications -/

/-- A reading of the state of a stream. -/
def Metrics.Reading.isState (r : Metrics.Reading) : Bool := r.metric = "replicator_stream_state"

/-- Readings that say nothing of the state of a stream. -/
def Metrics.Quiet (readings : List Metrics.Reading) : Prop := ∀ r ∈ readings, r.isState = false

theorem Metrics.quiet_nil : Metrics.Quiet [] := by
  intro r hr
  cases hr

theorem Metrics.Quiet.append {readings more : List Metrics.Reading} (h : Metrics.Quiet readings)
    (h' : Metrics.Quiet more) : Metrics.Quiet (readings ++ more) := by
  intro r hr
  rcases List.mem_append.1 hr with hr | hr
  · exact h r hr
  · exact h' r hr

theorem Metrics.quiet_iff {readings : List Metrics.Reading} :
    Metrics.Quiet readings ↔ ∀ r ∈ readings, r.metric ≠ "replicator_stream_state" := by
  simp [Metrics.Quiet, Metrics.Reading.isState]

theorem Metrics.quiet_batch (consumer : String) (events intents : Nat) :
    Metrics.Quiet (Metrics.batch consumer events intents) :=
  Metrics.quiet_iff.2 (by simp [Metrics.batch])

theorem Metrics.quiet_commit (consumer outcome : String) :
    Metrics.Quiet (Metrics.commit consumer outcome) :=
  Metrics.quiet_iff.2 (by simp [Metrics.commit])

theorem Metrics.quiet_circuitCall (circuit outcome : String) :
    Metrics.Quiet (Metrics.circuitCall circuit outcome) :=
  Metrics.quiet_iff.2 (by simp [Metrics.circuitCall])

theorem Metrics.quiet_checkpoint (consumer : String) (seq : UInt64) :
    Metrics.Quiet (Metrics.checkpoint consumer seq) :=
  Metrics.quiet_iff.2 (by simp [Metrics.checkpoint])

theorem Metrics.quiet_eventsReceived (consumer : String) (n : Nat) :
    Metrics.Quiet (Metrics.eventsReceived consumer n) :=
  Metrics.quiet_iff.2 (by simp [Metrics.eventsReceived])

theorem Metrics.quiet_eventsSkipped (consumer reason : String) :
    Metrics.Quiet (Metrics.eventsSkipped consumer reason) :=
  Metrics.quiet_iff.2 (by simp [Metrics.eventsSkipped])

theorem Metrics.quiet_backoff (consumer : String) (attempt : Nat) (seconds : Double) :
    Metrics.Quiet (Metrics.backoff consumer attempt seconds) :=
  Metrics.quiet_iff.2 (by simp [Metrics.backoff])

theorem Writer.enter_quiet (w : Writer) (recovered : Bool) :
    Metrics.Quiet (w.enter recovered).2.2 := by
  unfold Writer.enter
  split
  · exact Metrics.quiet_nil
  · exact (Metrics.quiet_circuitCall _ _).append (Metrics.quiet_commit _ _)

theorem Writer.finish_quiet (w : Writer) (range : SeqRange)
    (result : Except StoreFault Checkpoint.Outcome) :
    Metrics.Quiet (w.finish range result).2.2 := by
  unfold Writer.finish
  split
  · exact (Metrics.quiet_circuitCall _ _).append (Metrics.quiet_commit _ _)
  · refine (Metrics.quiet_circuitCall _ _).append ?_
    unfold Writer.report
    split
    · exact (Metrics.quiet_commit _ _).append (Metrics.quiet_checkpoint _ _)
    · exact Metrics.quiet_commit _ _
    · exact Metrics.quiet_commit _ _

namespace Consumer

/-- The health that a step publishes, if it publishes one: the state of the stream is reported
together with it, and at no other time. -/
def published? (s : ConsumerStep) : Option StreamHealth :=
  if s.2.any Metrics.Reading.isState then some s.1.health else none

/-- What is published is what shows. -/
theorem health_of_published? {s : ConsumerStep} {health : StreamHealth}
    (h : published? s = some health) : s.1.health = health := by
  unfold published? at h
  split at h
  · exact Option.some.inj h
  · cases h

theorem published?_publish (c : Consumer) (health : StreamHealth) :
    published? (c.publish health) = some health := by
  simp [published?, publish, Metrics.streamState, Metrics.Reading.isState]

theorem published?_reporting {readings : List Metrics.Reading} (h : Metrics.Quiet readings)
    (s : ConsumerStep) : published? (reporting readings s) = published? s := by
  have hany : readings.any Metrics.Reading.isState = false := by
    simpa [Metrics.Quiet] using h
  simp [published?, reporting, List.any_append, hany]

theorem published?_of_quiet {s : ConsumerStep} (h : Metrics.Quiet s.2) : published? s = none := by
  have hany : s.2.any Metrics.Reading.isState = false := by
    simpa [Metrics.Quiet] using h
  simp [published?, hany]

theorem pauseReadings_quiet (c : Consumer) (e : StreamFault) :
    Metrics.Quiet (c.pauseReadings e) := by
  unfold pauseReadings
  split
  · exact Metrics.quiet_iff.2 (by simp [Metrics.triggerError])
  · exact Metrics.quiet_iff.2 (by simp [Metrics.sequenceGap])
  · exact Metrics.quiet_nil

/-- The health that follows a fault. -/
def reaction (c : Consumer) (e : StreamFault) (m : Moment) : StreamHealth :=
  match e with
  | .config reason => .failed reason
  | e =>
    if e.isRetryable then
      .backoff (c.attempt + 1) (m.now.later (c.settings.retry.jitteredDelay c.attempt m.spread))
    else .paused (e.sequence?.or c.stalledAt) e.message

theorem published?_react (c : Consumer) (e : StreamFault) (m : Moment) :
    published? (c.react e m) = some (c.reaction e m) := by
  have hwait : published? (if e.isRetryable then c.backOff m else c.pause e) =
      some (if e.isRetryable then
        .backoff (c.attempt + 1) (m.now.later (c.settings.retry.jitteredDelay c.attempt m.spread))
      else .paused (e.sequence?.or c.stalledAt) e.message) := by
    split
    · simp only [backOff]
      rw [published?_reporting (Metrics.quiet_backoff _ _ _), published?_publish]
    · simp only [pause]
      rw [published?_reporting (pauseReadings_quiet _ _), published?_publish, haltedAt_eq]
  unfold react reaction
  cases e with
  | config reason => exact published?_publish _ _
  | _ => exact hwait

/-! ## What a session returns -/

end Consumer

/-- The fault that is to follow a commit. -/
def AfterCommit.fault? : AfterCommit → Option StreamFault
  | .fail e => some e
  | _ => none

/-- Whether a commit found its range to be written, by itself or by others. -/
def CommitOutcome.isSettled : CommitOutcome → Bool
  | .applied | .alreadyApplied _ => true
  | .overlap _ => false

/-- Whether a proposal has ended with its range written. -/
def Checkpoint.Proposal.isSettled (p : Proposal) : Bool :=
  match p.result? with
  | some (.ok found) => (Writer.outcomeOf p.range found).isSettled
  | _ => false

/-- The fault that comes of a proposal, given what is to follow it. -/
def Checkpoint.Proposal.fault? (p : Proposal) (after : AfterCommit) : Option StreamFault :=
  match p.result? with
  | some (.error e) => some e.toStream
  | some (.ok _) => after.fault?
  | none => none

/-- A phase of a session. -/
def ConsumerPhase.inSession : ConsumerPhase → Bool
  | .reading | .subscribing _ | .waiting _ | .throttled _ _ | .committing _ _ => true
  | _ => false

namespace Consumer

variable {c : Consumer} {m : Moment} {signal : Signal}

/-- The fault that a session returns when it commits what it has, before the store is asked. -/
def flushFault? (c : Consumer) (m : Moment) (s : Session) (after : AfterCommit) :
    Option StreamFault :=
  match s.batch.range with
  | none => after.fault?
  | some _ =>
    match (c.writer.enter m.recovered).2.1 with
    | .error e => some e.toStream
    | .ok () => none

/-- The fault that a session returns when it runs a change through the triggers. -/
def applyFault? (c : Consumer) (m : Moment) (s : Session) (change : Change) :
    Option StreamFault :=
  match c.pipeline.apply change with
  | .error e => c.flushFault? m s (.fail e)
  | .ok intents =>
    let s : Session := ⟨change.seq, s.batch.push change.seq intents⟩
    if s.batch.isFull c.settings.batch.maxEvents then c.flushFault? m s (.goOn s.cursor) else none

/-- The fault that a session returns when it is told a signal, if it ends with one there. -/
def sessionFault? (c : Consumer) (m : Moment) (signal : Signal) : Option StreamFault :=
  match c.phase, signal with
  | .reading, .read answer =>
    match answer.bind (Checkpoint.decodeRecord c.checkpoint) with
    | .error e => some e.toStream
    | .ok _ => none
  | .subscribing _, .subscribed (.error e) => some e.toStream
  | .waiting s, .item (.error e) => c.flushFault? m s (.fail e.toStream)
  | .waiting s, .item (.ok none) => c.flushFault? m s (.fail ended)
  | .waiting s, .item (.ok (some (.event change))) =>
    if change.seq ≤ s.cursor then none
    else if c.settings.rateLimit.isSome then none
    else c.applyFault? m s change
  | .waiting s, .elapsed =>
    if s.batch.isEmpty then some c.silence else c.flushFault? m s (.goOn s.cursor)
  | .waiting s, .stop => c.flushFault? m s .stop
  | .throttled s change, .passed => c.applyFault? m s change
  | .committing p after, .read answer => (p.onRead answer).fault? after
  | .committing p after, .wrote answer => (p.onWrite answer).fault? after
  | _, _ => none

theorem inSession_of_sessionFault? {e : StreamFault} (h : c.sessionFault? m signal = some e) :
    c.phase.inSession = true := by
  unfold sessionFault? at h
  split at h <;> simp_all [ConsumerPhase.inSession]

/-- The change that the triggers refuse on a signal. -/
def refuses? (c : Consumer) (signal : Signal) : Option Change :=
  match c.phase, signal with
  | .waiting s, .item (.ok (some (.event change))) =>
    if s.cursor < change.seq ∧ c.settings.rateLimit.isNone ∧ !(c.pipeline.apply change).isOk then
      some change
    else none
  | .throttled _ change, .passed => if (c.pipeline.apply change).isOk then none else some change
  | _, _ => none

/-- Nothing is refused in a session that has not been handed a change. -/
theorem refuses?_eq_none
    (hwaiting : ∀ s change, c.phase = .waiting s → signal ≠ .item (.ok (some (.event change))))
    (hthrottled : ∀ s change, c.phase ≠ .throttled s change) : c.refuses? signal = none := by
  unfold refuses?
  split
  · rename_i hphase
    exact absurd rfl (hwaiting _ _ hphase)
  · rename_i hphase
    exact absurd hphase (hthrottled _ _)
  · rfl

/-- Whether a commit returns on a signal with its range written. -/
def settles (c : Consumer) (signal : Signal) : Bool :=
  match c.phase, signal with
  | .committing p _, .read answer => (p.onRead answer).isSettled
  | .committing p _, .wrote answer => (p.onWrite answer).isSettled
  | _, _ => false

/-- Nothing is settled but by a commit. -/
theorem settles_of_fresh (hfresh : ∀ p after, c.phase ≠ .committing p after) :
    c.settles signal = false := by
  unfold settles
  split
  · rename_i hphase
    exact absurd hphase (hfresh _ _)
  · rename_i hphase
    exact absurd hphase (hfresh _ _)
  · rfl

/-- A consumer within a step: what outlives its session is as it was, but for a commit that has
returned and a change that was refused. -/
structure Comes (c : Consumer) (signal : Signal) (c' : Consumer) : Prop where
  keeps : c.Keeps c'
  settings : c'.settings = c.settings
  resume : c'.resume = c.resume
  health : c'.health = c.health
  attempt : c'.attempt = if c.settles signal then 0 else c.attempt
  stalledAt : c'.stalledAt = ((c.refuses? signal).map Change.seq).or c.stalledAt

/-- Why a session is to end with a fault. -/
inductive Causes (c : Consumer) (signal : Signal) (f : StreamFault) : Prop where
  /-- It waits for the last commit. -/
  | pending {p : Proposal} (hphase : c.phase = .committing p (.fail f))
  | refused {x : Change} (hrefuses : c.refuses? signal = some x)
      (happly : c.pipeline.apply x = .error f)
  /-- The feed has a fault, or is silent. -/
  | told {e : FeedFault} (hfresh : ∀ p after, c.phase ≠ .committing p after)
      (hrefuses : c.refuses? signal = none) (hf : f = e.toStream)

/-- Where the fault that a session returns comes from. -/
inductive Origin (c : Consumer) (signal : Signal) (f : StreamFault) : Prop where
  /-- A read of the checkpoint, or a commit. -/
  | store {e : StoreFault} (hf : f = e.toStream)
  | caused (h : c.Causes signal f)

/-- What a commit that is made or goes on is followed by. -/
inductive Last (c : Consumer) (signal : Signal) (after : AfterCommit) : Prop where
  | fault {f : StreamFault} (hafter : after = .fail f) (h : c.Causes signal f)
  | calm (hafter : after.fault? = none) (hrefuses : c.refuses? signal = none)
      (hcalm : ∀ p f, c.phase ≠ .committing p (.fail f))

/-- Where a session goes on that does not end. -/
inductive Works (c : Consumer) (signal : Signal) (phase : ConsumerPhase) : Prop where
  | onward (hphase : phase = .starting ∨ phase.inSession = true)
      (hcommit : ∀ p after, phase ≠ .committing p after) (hrefuses : c.refuses? signal = none)
      (hcalm : ∀ p f, c.phase ≠ .committing p (.fail f))
  | commits {p : Proposal} {after : AfterCommit} (hphase : phase = .committing p after)
      (hlast : c.Last signal after)

/-- How a session goes on when it is told a signal. -/
inductive Goes (c : Consumer) (m : Moment) (signal : Signal) : ConsumerStep → Prop where
  /-- It returns a fault. -/
  | reacts {c' : Consumer} {e : StreamFault} {readings : List Metrics.Reading}
      (hfault : c.sessionFault? m signal = some e) (horigin : c.Origin signal e)
      (hcomes : c.Comes signal c') (hquiet : Metrics.Quiet readings) :
      Goes c m signal (reporting readings (c'.react e m))
  /-- It goes on, or begins again. -/
  | works {c' : Consumer} {readings : List Metrics.Reading}
      (hfault : c.sessionFault? m signal = none) (hcomes : c.Comes signal c')
      (hphase : c.Works signal c'.phase) (hquiet : Metrics.Quiet readings) :
      Goes c m signal (c', readings)
  /-- It ends on request. -/
  | stops {c' : Consumer} {readings : List Metrics.Reading}
      (hfault : c.sessionFault? m signal = none) (hcomes : c.Comes signal c')
      (hquiet : Metrics.Quiet readings) : Goes c m signal (reporting readings c'.finishStopped)

/-- How a consumer fares on a signal. -/
inductive Fares (c : Consumer) (m : Moment) (signal : Signal) : ConsumerStep → Prop where
  | session {step : ConsumerStep} (hin : c.phase.inSession = true) (h : c.Goes m signal step) :
      Fares c m signal step
  | opens {checkpoint : UInt64} (hphase : c.phase = .subscribing checkpoint)
      (hsignal : signal = .subscribed (.ok ())) :
      Fares c m signal ({ c with phase := .waiting { cursor := checkpoint } }.publish .streaming)
  | begins (hphase : c.phase = .starting) (hsignal : signal = .start false) :
      Fares c m signal c.begin
  | refrains (hphase : c.phase = .starting) (hsignal : signal = .start true) :
      Fares c m signal c.finishStopped
  /-- A pause ends for a retry. -/
  | resumes (hphase : c.phase = .paused) (hsignal : signal = .resumed) :
      Fares c m signal { c with resume := c.resume.take, attempt := 0 }.restart
  /-- A backoff ends for a retry. -/
  | hastens {delay : Duration} (hphase : c.phase = .backingOff delay)
      (hsignal : signal = .resumed) : Fares c m signal { c with resume := c.resume.take }.restart
  | elapses {delay : Duration} (hphase : c.phase = .backingOff delay)
      (hsignal : signal = .elapsed) :
      Fares c m signal { c with resume := c.resume.cancel }.restart
  | quits (hphase : c.phase = .paused ∨ ∃ delay, c.phase = .backingOff delay)
      (hsignal : signal = .stop) :
      Fares c m signal { c with resume := c.resume.cancel }.finishStopped
  /-- The signal does not fit, or tells nothing new. -/
  | idle (hbegins : c.phase = .starting → ∀ stop, signal ≠ .start stop)
      (hfault : c.sessionFault? m signal = none) (hrefuses : c.refuses? signal = none)
      (hsettles : c.settles signal = false)
      (hwait : c.phase = .paused ∨ (∃ delay, c.phase = .backingOff delay) →
        signal ≠ .resumed ∧ signal ≠ .stop) :
      Fares c m signal (c, [])

variable {c' : Consumer} {after : AfterCommit}

/-! ## Sessions -/

theorem reporting_nil (s : ConsumerStep) : reporting [] s = s := rfl

theorem reporting_append (readings more : List Metrics.Reading) (s : ConsumerStep) :
    reporting readings (reporting more s) = reporting (readings ++ more) s := by
  simp [reporting]

theorem Goes.reporting {step : ConsumerStep} {readings : List Metrics.Reading}
    (h : c.Goes m signal step) (hquiet : Metrics.Quiet readings) :
    c.Goes m signal (Consumer.reporting readings step) := by
  cases h with
  | reacts hfault horigin hcomes hquiet' =>
      rw [reporting_append]
      exact .reacts hfault horigin hcomes (hquiet.append hquiet')
  | works hfault hcomes hphase hquiet' =>
      exact .works hfault hcomes hphase (hquiet.append hquiet')
  | stops hfault hcomes hquiet' =>
      rw [reporting_append]
      exact .stops hfault hcomes (hquiet.append hquiet')

/-- A consumer that has come so far may have another writer of its own, and any phase. -/
theorem Comes.within (h : c.Comes signal c') {writer : Writer} (phase : ConsumerPhase)
    (hconsumer : writer.consumer = c'.writer.consumer)
    (hbucket : writer.bucket = c'.writer.bucket) :
    c.Comes signal { c' with writer, phase } :=
  { h with keeps := h.keeps.trans ⟨rfl, rfl, hconsumer, hbucket⟩ }

/-- Nothing comes of a signal by which no commit returns and no change is refused. -/
theorem Comes.refl (hsettles : c.settles signal = false) (hrefuses : c.refuses? signal = none) :
    c.Comes signal c :=
  ⟨.refl c, rfl, rfl, rfl, by simp [hsettles], by simp [hrefuses]⟩

theorem Works.active {phase : ConsumerPhase} (h : c.Works signal phase) :
    phase = .starting ∨ phase.inSession = true := by
  cases h with
  | onward hphase => exact hphase
  | commits hphase => exact .inr (by rw [hphase]; rfl)

/-- A session that goes on without a commit, or begins again. -/
theorem Comes.goes_onward (h : c.Comes signal c') (phase : ConsumerPhase)
    {readings : List Metrics.Reading} (hfault : c.sessionFault? m signal = none)
    (hphase : phase = .starting ∨ phase.inSession = true)
    (hcommit : ∀ p after, phase ≠ .committing p after) (hrefuses : c.refuses? signal = none)
    (hcalm : ∀ p f, c.phase ≠ .committing p (.fail f)) (hquiet : Metrics.Quiet readings) :
    c.Goes m signal ({ c' with phase }, readings) :=
  .works hfault (h.within phase rfl rfl) (.onward hphase hcommit hrefuses hcalm) hquiet

theorem proceed_goes (hcomes : c.Comes signal c')
    (hfault : c.sessionFault? m signal = after.fault?) (hlast : c.Last signal after) :
    c.Goes m signal (c'.proceed after m) := by
  rw [← reporting_nil (c'.proceed after m)]
  cases hlast with
  | fault hafter hcauses =>
      subst hafter
      exact .reacts hfault (.caused hcauses) hcomes Metrics.quiet_nil
  | calm hafter hrefuses hcalm =>
      cases after with
      | goOn cursor =>
          exact hcomes.goes_onward (.waiting { cursor }) hfault (.inr rfl) (fun _ _ => nofun)
            hrefuses hcalm Metrics.quiet_nil
      | stop => exact .stops hfault hcomes Metrics.quiet_nil
      | fail f => cases hafter

theorem flush_goes {s : Session} (hcomes : c.Comes signal c')
    (hfault : c.sessionFault? m signal = c'.flushFault? m s after)
    (hlast : c.Last signal after) : c.Goes m signal (c'.flush s after m) := by
  unfold flush
  unfold flushFault? at hfault
  cases hrange : s.batch.range with
  | none =>
      rw [hrange] at hfault
      exact proceed_goes hcomes hfault hlast
  | some range =>
      have hkeeps := enter_keeps c'.writer m.recovered
      have hquiet := c'.writer.enter_quiet m.recovered
      have hcollected := Metrics.quiet_batch c'.id s.batch.events s.batch.intents.length
      simp only [hrange] at hfault ⊢
      rcases henter : c'.writer.enter m.recovered with ⟨writer, answer, readings⟩
      rw [henter] at hfault hkeeps hquiet
      have hwithin := fun phase => hcomes.within phase hkeeps.1 hkeeps.2
      cases answer with
      | error e =>
          -- the breaker is open
          exact .reacts hfault (.store rfl) (hwithin c'.phase) (hcollected.append hquiet)
      | ok u =>
          exact .works hfault (hwithin _) (.commits rfl hlast) (hcollected.append hquiet)

/-- A commit is followed by what was to follow it. -/
theorem last_of_committing {p : Proposal} (hphase : c.phase = .committing p after) :
    c.Last signal after := by
  cases hafter : after.fault? with
  | none =>
      refine .calm hafter (refuses?_eq_none (by simp [hphase]) (by simp [hphase])) ?_
      intro p' f hphase'
      rw [hphase] at hphase'
      cases hphase'
      cases hafter
  | some f =>
      cases after with
      | fail f' => exact .fault rfl (.pending hphase)
      | _ => cases hafter

/-- A commit that goes on, ends or fails. -/
theorem proposed_goes {p p' : Proposal} (hphase : c.phase = .committing p' after)
    (hsettles : c.settles signal = p.isSettled)
    (hfault : c.sessionFault? m signal = p.fault? after) :
    c.Goes m signal (c.proposed p after m) := by
  have hrefuses : c.refuses? signal = none :=
    refuses?_eq_none (by simp [hphase]) (by simp [hphase])
  have hlast : c.Last signal after := last_of_committing hphase
  unfold proposed
  unfold Proposal.isSettled at hsettles
  unfold Proposal.fault? at hfault
  cases hresult : p.result? with
  | none =>
      rw [hresult] at hsettles hfault
      exact .works hfault ((Comes.refl hsettles hrefuses).within _ rfl rfl) (.commits rfl hlast)
        Metrics.quiet_nil
  | some result =>
      have hkeeps := finish_keeps c.writer p.range result
      have hquiet := c.writer.finish_quiet p.range result
      rw [hresult] at hsettles hfault
      cases result with
      | error e =>
          exact .reacts hfault (.store rfl)
            ((Comes.refl hsettles hrefuses).within c.phase hkeeps.1 hkeeps.2) hquiet
      | ok found =>
          refine Goes.reporting ?_ hquiet
          simp only at hsettles hfault
          simp only [committed]
          cases houtcome : Writer.outcomeOf p.range found with
          | overlap current =>
              rw [houtcome] at hsettles
              have hwithin := fun phase =>
                (Comes.refl hsettles hrefuses).within phase hkeeps.1 hkeeps.2
              cases after with
              | goOn cursor =>
                  -- the session begins again from the checkpoint
                  refine (hwithin c.phase).goes_onward .starting hfault (.inl rfl)
                    (fun _ _ => nofun) hrefuses ?_ Metrics.quiet_nil
                  simp [hphase]
              | stop => exact proceed_goes (hwithin c.phase) hfault hlast
              | fail f => exact proceed_goes (hwithin c.phase) hfault hlast
          | _ =>
              rw [houtcome] at hsettles
              refine proceed_goes ?_ hfault hlast
              exact ⟨⟨rfl, rfl, hkeeps.1, hkeeps.2⟩, rfl, rfl, rfl, by rw [hsettles]; rfl,
                by simp [hrefuses]⟩

/-- A change that goes through the triggers. -/
theorem apply_goes {s : Session} {change : Change}
    (hfresh : ∀ p after, c.phase ≠ .committing p after)
    (hrefuses : c.refuses? signal = if (c.pipeline.apply change).isOk then none else some change)
    (hsettles : c.settles signal = false)
    (hfault : c.sessionFault? m signal = c.applyFault? m s change) :
    c.Goes m signal (c.apply s change m) := by
  unfold apply
  unfold applyFault? at hfault
  cases happly : c.pipeline.apply change with
  | error e =>
      rw [happly] at hfault hrefuses
      have hcomes : c.Comes signal { c with stalledAt := some change.seq } :=
        ⟨⟨rfl, rfl, rfl, rfl⟩, rfl, rfl, rfl, by simp [hsettles], by rw [hrefuses]; rfl⟩
      exact flush_goes hcomes hfault (.fault rfl (.refused hrefuses happly))
  | ok intents =>
      rw [happly] at hfault hrefuses
      have hcomes := Comes.refl hsettles hrefuses
      have hcalm : ∀ p f, c.phase ≠ .committing p (.fail f) := fun p f => hfresh p _
      simp only at hfault ⊢
      split
      · -- the batch is full
        rename_i hfull
        rw [if_pos hfull] at hfault
        exact flush_goes hcomes hfault (.calm rfl hrefuses hcalm)
      · rename_i hfull
        rw [if_neg hfull] at hfault
        exact hcomes.goes_onward (.waiting _) hfault (.inr rfl) (fun _ _ => nofun) hrefuses hcalm
          Metrics.quiet_nil

theorem receive_goes {s : Session} (hphase : c.phase = .waiting s) (change : Change) :
    c.Goes m (.item (.ok (some (.event change)))) (c.receive s change m) := by
  have hcalm : ∀ p after, c.phase ≠ .committing p after := by simp [hphase]
  have hsettles : c.settles (.item (.ok (some (.event change)))) = false := settles_of_fresh hcalm
  refine Goes.reporting ?_ (Metrics.quiet_eventsReceived _ _)
  by_cases hle : change.seq ≤ s.cursor
  · -- it was taken before
    have hrefuses : c.refuses? (.item (.ok (some (.event change)))) = none := by
      simp only [refuses?, hphase]
      exact if_neg fun h => UInt64.not_lt.2 hle h.1
    rw [if_pos hle]
    refine (Comes.refl hsettles hrefuses).goes_onward (.waiting s) ?_ (.inr rfl)
      (fun _ _ => nofun) hrefuses (fun p f => hcalm p _) (Metrics.quiet_eventsSkipped _ _)
    rw [sessionFault?.eq_def, hphase]
    exact if_pos hle
  · have hlt : s.cursor < change.seq := UInt64.not_le.1 hle
    rw [if_neg hle]
    cases hlimit : c.settings.rateLimit with
    | some limit =>
        have hrefuses : c.refuses? (.item (.ok (some (.event change)))) = none := by
          simp [refuses?, hphase, hlimit]
        refine (Comes.refl hsettles hrefuses).goes_onward (.throttled s change) ?_ (.inr rfl)
          (fun _ _ => nofun) hrefuses (fun p f => hcalm p _) Metrics.quiet_nil
        rw [sessionFault?.eq_def, hphase]
        simp [hlimit]
    | none =>
        refine apply_goes hcalm ?_ hsettles ?_
        · cases hok : (c.pipeline.apply change).isOk <;> simp [refuses?, hphase, hlimit, hlt, hok]
        · rw [sessionFault?.eq_def, hphase]
          simp [hle, hlimit]

theorem itemRead_goes {s : Session} (hphase : c.phase = .waiting s) {answer : FeedAnswer}
    (hnews : answer ≠ .ok (some .heartbeat)) :
    c.Goes m (.item answer) (c.itemRead s answer m) := by
  have hfresh : ∀ p after, c.phase ≠ .committing p after := by simp [hphase]
  have hsettles : c.settles (.item answer) = false := settles_of_fresh hfresh
  rcases answer with e | _ | change | _
  · have hrefuses : c.refuses? (.item (.error e)) = none :=
      refuses?_eq_none (by simp [hphase]) (by simp [hphase])
    refine flush_goes (Comes.refl hsettles hrefuses) ?_ (.fault rfl (.told hfresh hrefuses rfl))
    rw [sessionFault?.eq_def, hphase]
  · have hrefuses : c.refuses? (.item (.ok none)) = none :=
      refuses?_eq_none (by simp [hphase]) (by simp [hphase])
    have hcauses : c.Causes (.item (.ok none)) ended :=
      .told hfresh hrefuses (e := .unavailable "next_item" "feed closed") rfl
    refine flush_goes (Comes.refl hsettles hrefuses) ?_ (.fault rfl hcauses)
    rw [sessionFault?.eq_def, hphase]
  · exact receive_goes hphase change
  · exact absurd rfl hnews

theorem outOfPatience_goes {s : Session} (hphase : c.phase = .waiting s) :
    c.Goes m .elapsed (c.outOfPatience s m) := by
  have hfresh : ∀ p after, c.phase ≠ .committing p after := by simp [hphase]
  have hsettles : c.settles .elapsed = false := settles_of_fresh hfresh
  have hrefuses : c.refuses? .elapsed = none :=
    refuses?_eq_none (by simp [hphase]) (by simp [hphase])
  have hfault : c.sessionFault? m .elapsed =
      if s.batch.isEmpty then some c.silence else c.flushFault? m s (.goOn s.cursor) := by
    rw [sessionFault?.eq_def, hphase]
  unfold outOfPatience
  split
  · rename_i hempty
    rw [if_pos hempty] at hfault
    have hcauses : c.Causes .elapsed c.silence :=
      .told hfresh hrefuses (e := .unavailable "next_item" _) rfl
    exact .reacts hfault (.caused hcauses) (Comes.refl hsettles hrefuses) Metrics.quiet_nil
  · rename_i hempty
    rw [if_neg hempty] at hfault
    exact flush_goes (Comes.refl hsettles hrefuses) hfault
      (.calm rfl hrefuses fun p f => hfresh p _)

theorem checkpointRead_goes (hphase : c.phase = .reading)
    (answer : Except StoreFault (Option Store.Record)) :
    c.Goes m (.read answer) (c.checkpointRead answer m) := by
  have hrefuses : c.refuses? (.read answer) = none :=
    refuses?_eq_none (by simp [hphase]) (by simp [hphase])
  have hcomes : c.Comes (.read answer) c := .refl (settles_of_fresh (by simp [hphase])) hrefuses
  unfold checkpointRead
  cases hfound : answer.bind (Checkpoint.decodeRecord c.checkpoint) with
  | error e =>
      refine .reacts ?_ (.store rfl) hcomes Metrics.quiet_nil
      rw [sessionFault?.eq_def, hphase]
      simp [hfound]
  | ok found =>
      refine hcomes.goes_onward (.subscribing _) ?_ (.inr rfl) (fun _ _ => nofun) hrefuses
        (by simp [hphase]) Metrics.quiet_nil
      rw [sessionFault?.eq_def, hphase]
      simp [hfound]

/-! ## Steps -/

/-- Every step of a consumer is one of the ways it can fare. -/
theorem step_fares (c : Consumer) (m : Moment) (signal : Signal) :
    c.Fares m signal (c.step m signal) := by
  -- one case for each pair of a phase and a signal that fits it
  unfold step
  split
  · rename_i stop hphase
    cases stop with
    | true => exact .refrains hphase rfl
    | false => exact .begins hphase rfl
  · rename_i hphase
    exact .session (by rw [hphase]; rfl) (checkpointRead_goes hphase _)
  · rename_i checkpoint e hphase
    have hrefuses : c.refuses? (.subscribed (.error e)) = none :=
      refuses?_eq_none (by simp [hphase]) (by simp [hphase])
    refine .session (by rw [hphase]; rfl) (.reacts ?_ (.caused (.told ?_ hrefuses rfl))
      (.refl ?_ hrefuses) Metrics.quiet_nil)
    · rw [sessionFault?.eq_def, hphase]
    · simp [hphase]
    · exact settles_of_fresh (by simp [hphase])
  · rename_i hphase
    exact .opens hphase rfl
  · rename_i s answer hphase
    by_cases hnews : answer = .ok (some .heartbeat)
    · subst hnews
      refine .idle (by simp [hphase]) ?_ ?_ ?_ (by simp [hphase])
      · rw [sessionFault?.eq_def, hphase]
      · exact refuses?_eq_none (by simp [hphase]) (by simp [hphase])
      · exact settles_of_fresh (by simp [hphase])
    · exact .session (by rw [hphase]; rfl) (itemRead_goes hphase hnews)
  · rename_i hphase
    exact .session (by rw [hphase]; rfl) (outOfPatience_goes hphase)
  · rename_i s hphase
    have hrefuses : c.refuses? .stop = none :=
      refuses?_eq_none (by simp [hphase]) (by simp [hphase])
    refine .session (by rw [hphase]; rfl) (flush_goes (.refl ?_ hrefuses) ?_
      (.calm rfl hrefuses (by simp [hphase])))
    · exact settles_of_fresh (by simp [hphase])
    · rw [sessionFault?.eq_def, hphase]
  · rename_i s change hphase
    refine .session (by rw [hphase]; rfl) (apply_goes (by simp [hphase]) ?_ ?_ ?_)
    · simp only [refuses?, hphase]
    · exact settles_of_fresh (by simp [hphase])
    · rw [sessionFault?.eq_def, hphase]
  · rename_i hphase
    refine .session (by rw [hphase]; rfl) (proposed_goes hphase ?_ ?_)
    · simp only [settles, hphase]
    · rw [sessionFault?.eq_def, hphase]
  · rename_i hphase
    refine .session (by rw [hphase]; rfl) (proposed_goes hphase ?_ ?_)
    · simp only [settles, hphase]
    · rw [sessionFault?.eq_def, hphase]
  · rename_i hphase
    exact .elapses hphase rfl
  · rename_i hphase
    exact .hastens hphase rfl
  · rename_i delay hphase
    exact .quits (.inr ⟨delay, hphase⟩) rfl
  · rename_i hphase
    exact .resumes hphase rfl
  · rename_i hphase
    exact .quits (.inl hphase) rfl
  · -- the signal does not fit
    rename_i hstart _ _ _ _ _ _ _ _ _ _ hhastens hquits hresumes hends
    refine .idle ?_ ?_ ?_ ?_ ?_
    · intro hphase stop
      exact hstart stop hphase
    · unfold sessionFault?
      split <;> grind
    · unfold refuses?
      split <;> grind
    · unfold settles
      split <;> grind
    · rintro (hphase | ⟨delay, hphase⟩)
      · exact ⟨hresumes hphase, hends hphase⟩
      · exact ⟨hhastens delay hphase, hquits delay hphase⟩

end Consumer

end ChangeRelay
