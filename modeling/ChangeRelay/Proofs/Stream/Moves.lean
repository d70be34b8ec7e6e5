import ChangeRelay.Stream.Consumer

/-!
# Moves of a consumer

What one signal can do to a consumer: which phase it ends up in, what it read, took or answered on
the way, and what it keeps all its life. Whatever is proved of every step is proved move by move.
-/

namespace ChangeRelay

/-- A phase without a subscription and without a batch. -/
inductive ConsumerPhase.Quiet : ConsumerPhase → Prop where
  | starting : Quiet .starting
  | reading : Quiet .reading
  | backingOff (delay : Duration) : Quiet (.backingOff delay)
  | paused : Quiet .paused
  | finished : Quiet .finished

instance (phase : ConsumerPhase) : Decidable phase.Quiet :=
  match phase with
  | .starting => isTrue .starting
  | .reading => isTrue .reading
  | .backingOff delay => isTrue (.backingOff delay)
  | .paused => isTrue .paused
  | .finished => isTrue .finished
  | .subscribing _ | .waiting _ | .throttled _ _ | .committing _ _ => isFalse nofun

namespace Consumer

open Checkpoint (Proposal)

/-- What a consumer keeps all its life, and hands on to an instance in its place. -/
structure Keeps (c c' : Consumer) : Prop where
  query : c'.query = c.query
  pipeline : c'.pipeline = c.pipeline
  id : c'.writer.consumer = c.writer.consumer
  bucket : c'.writer.bucket = c.writer.bucket

theorem Keeps.refl (c : Consumer) : c.Keeps c := ⟨rfl, rfl, rfl, rfl⟩

theorem Keeps.trans {c c' c'' : Consumer} (h : c.Keeps c') (h' : c'.Keeps c'') : c.Keeps c'' :=
  ⟨h'.query.trans h.query, h'.pipeline.trans h.pipeline, h'.id.trans h.id,
    h'.bucket.trans h.bucket⟩

/-- A consumer keeps its checkpoint. -/
theorem Keeps.checkpoint {c c' : Consumer} (h : c.Keeps c') : c'.checkpoint = c.checkpoint := by
  unfold Consumer.checkpoint Consumer.id
  rw [h.id, h.bucket]

/-- A step that keeps what it has to and ends in a phase of some kind. -/
structure Turns (c : Consumer) (step : ConsumerStep) (kind : ConsumerPhase → Prop) : Prop where
  keeps : c.Keeps step.1
  phase : kind step.1.phase

theorem Turns.imp {c : Consumer} {step : ConsumerStep} {kind kind' : ConsumerPhase → Prop}
    (h : c.Turns step kind) (himp : ∀ phase, kind phase → kind' phase) : c.Turns step kind' :=
  ⟨h.keeps, himp _ h.phase⟩

theorem Turns.after {c c' : Consumer} {step : ConsumerStep} {kind : ConsumerPhase → Prop}
    (h : c'.Turns step kind) (hkeeps : c.Keeps c') : c.Turns step kind :=
  ⟨hkeeps.trans h.keeps, h.phase⟩

theorem Turns.reporting {c : Consumer} {readings : List Metrics.Reading} {step : ConsumerStep}
    {kind : ConsumerPhase → Prop} (h : c.Turns step kind) :
    c.Turns (Consumer.reporting readings step) kind := ⟨h.keeps, h.phase⟩

/-! ## Ends of a session -/

theorem finishStopped_turns (c : Consumer) : c.Turns c.finishStopped ConsumerPhase.Quiet :=
  ⟨⟨rfl, rfl, rfl, rfl⟩, .finished⟩

theorem backOff_turns (c : Consumer) (m : Moment) :
    c.Turns (c.backOff m) ConsumerPhase.Quiet :=
  ⟨⟨rfl, rfl, rfl, rfl⟩, .backingOff _⟩

theorem pause_turns (c : Consumer) (e : StreamFault) : c.Turns (c.pause e) ConsumerPhase.Quiet :=
  ⟨⟨rfl, rfl, rfl, rfl⟩, .paused⟩

/-- Whatever a fault does to a consumer, it ends the session. -/
theorem react_turns (c : Consumer) (e : StreamFault) (m : Moment) :
    c.Turns (c.react e m) ConsumerPhase.Quiet := by
  unfold react
  split
  · exact ⟨⟨rfl, rfl, rfl, rfl⟩, .finished⟩
  · split
    · exact c.backOff_turns m
    · exact c.pause_turns _

/-- A phase in which a session goes on behind a cursor with an empty batch, or none. -/
def GoesOn (after : AfterCommit) (phase : ConsumerPhase) : Prop :=
  phase.Quiet ∨ ∃ cursor, after = .goOn cursor ∧ phase = .waiting { cursor }

theorem proceed_turns (c : Consumer) (after : AfterCommit) (m : Moment) :
    c.Turns (c.proceed after m) (GoesOn after) := by
  cases after with
  | goOn cursor => exact ⟨⟨rfl, rfl, rfl, rfl⟩, .inr ⟨cursor, rfl, rfl⟩⟩
  | stop => exact c.finishStopped_turns.imp fun _ => .inl
  | fail e => exact (c.react_turns e m).imp fun _ => .inl

/-! ## Commits -/

/-- The proposal of a consumer for a range, at some time. -/
def proposalFor (c : Consumer) (range : SeqRange) (intents : List Intent) (time : Int) :
    Proposal :=
  { bucket := c.writer.bucket, consumer := c.writer.consumer, range, intents, time }

theorem Keeps.proposalFor {c c' : Consumer} (h : c.Keeps c') (range : SeqRange)
    (intents : List Intent) (time : Int) :
    c'.proposalFor range intents time = c.proposalFor range intents time := by
  unfold Consumer.proposalFor
  rw [h.id, h.bucket]

theorem enter_keeps (w : Writer) (recovered : Bool) :
    (w.enter recovered).1.consumer = w.consumer ∧ (w.enter recovered).1.bucket = w.bucket := by
  unfold Writer.enter
  split <;> exact ⟨rfl, rfl⟩

theorem finish_keeps (w : Writer) (range : SeqRange)
    (result : Except StoreFault Checkpoint.Outcome) :
    (w.finish range result).1.consumer = w.consumer ∧
      (w.finish range result).1.bucket = w.bucket := by
  unfold Writer.finish
  split <;> exact ⟨rfl, rfl⟩

/-- A phase in which a batch is committed, or its session is over. -/
def Commits (c : Consumer) (range : SeqRange) (intents : List Intent) (after : AfterCommit)
    (phase : ConsumerPhase) : Prop :=
  phase.Quiet ∨ ∃ time, phase = .committing (c.proposalFor range intents time) after

theorem flush_turns (c : Consumer) {s : Session} {range : SeqRange}
    (hrange : s.batch.range = some range) (after : AfterCommit) (m : Moment) :
    c.Turns (c.flush s after m) (c.Commits range s.batch.intents after) := by
  have hkeeps := enter_keeps c.writer m.recovered
  unfold flush
  simp only [hrange]
  split
  · -- the breaker is open
    rename_i writer e readings henter
    rw [henter] at hkeeps
    have hwriter : c.Keeps { c with writer } := ⟨rfl, rfl, hkeeps.1, hkeeps.2⟩
    exact (((react_turns _ e.toStream m).after hwriter).imp fun _ => .inl).reporting
  · rename_i writer readings henter
    rw [henter] at hkeeps
    have hid : writer.consumer = c.writer.consumer := hkeeps.1
    have hbucket : writer.bucket = c.writer.bucket := hkeeps.2
    refine ⟨⟨rfl, rfl, hid, hbucket⟩, .inr ⟨m.now.nanos / Duration.perMilli, ?_⟩⟩
    simp only [proposalFor, Writer.proposal, hid, hbucket]

theorem flush_none_turns (c : Consumer) {s : Session} (hrange : s.batch.range = none)
    (after : AfterCommit) (m : Moment) : c.Turns (c.flush s after m) (GoesOn after) := by
  unfold flush
  simp only [hrange]
  exact c.proceed_turns after m

/-- The phases after an answer to a proposal. -/
inductive Answered (p : Proposal) (after : AfterCommit) : ConsumerPhase → Prop where
  /-- The proposal is not at its end. -/
  | further (h : p.result? = none) : Answered p after (.committing p after)
  | quiet {phase : ConsumerPhase} (h : phase.Quiet) : Answered p after phase
  /-- The range is written, by this proposal or by others, and the session goes on. -/
  | settled {cursor : UInt64} (h : after = .goOn cursor)
      (hresult : p.result? = some (.ok .applied) ∨
        ∃ current, p.result? = some (.ok (.conflict current)) ∧ p.range.last ≤ current) :
      Answered p after (.waiting { cursor })

theorem committed_turns (c : Consumer) (p : Proposal) {result : Checkpoint.Outcome}
    (hresult : p.result? = some (.ok result)) (after : AfterCommit) (m : Moment) :
    c.Turns (c.committed after (Writer.outcomeOf p.range result) m) (Answered p after) := by
  have hproceed : ∀ c' : Consumer, c.Keeps c' →
      (p.result? = some (.ok .applied) ∨
        ∃ current, p.result? = some (.ok (.conflict current)) ∧ p.range.last ≤ current) →
      c.Turns (c'.proceed after m) (Answered p after) := by
    intro c' hkeeps hsettled
    refine ((c'.proceed_turns after m).after hkeeps).imp ?_
    rintro phase (hquiet | ⟨cursor, rfl, rfl⟩)
    · exact .quiet hquiet
    · exact .settled rfl hsettled
  cases result with
  | applied => exact hproceed _ ⟨rfl, rfl, rfl, rfl⟩ (.inl hresult)
  | conflict current =>
      simp only [Writer.outcomeOf]
      split
      · rename_i hle
        exact hproceed _ ⟨rfl, rfl, rfl, rfl⟩ (.inr ⟨current, hresult, hle⟩)
      · -- the session begins again
        cases after with
        | goOn cursor => exact ⟨⟨rfl, rfl, rfl, rfl⟩, .quiet .starting⟩
        | stop => exact c.finishStopped_turns.imp fun _ => .quiet
        | fail e => exact (c.react_turns e m).imp fun _ => .quiet

theorem proposed_turns (c : Consumer) (p : Proposal) (after : AfterCommit) (m : Moment) :
    c.Turns (c.proposed p after m) (Answered p after) := by
  unfold proposed
  split
  · rename_i hnone
    exact ⟨⟨rfl, rfl, rfl, rfl⟩, .further hnone⟩
  · rename_i result hresult
    have hkeeps := finish_keeps c.writer p.range result
    split
    · rename_i writer e readings hfinish
      rw [hfinish] at hkeeps
      have hwriter : c.Keeps { c with writer } := ⟨rfl, rfl, hkeeps.1, hkeeps.2⟩
      exact (((react_turns _ e.toStream m).after hwriter).imp fun _ => .quiet).reporting
    · rename_i writer outcome readings hfinish
      rw [hfinish] at hkeeps
      have hwriter : c.Keeps { c with writer } := ⟨rfl, rfl, hkeeps.1, hkeeps.2⟩
      -- what the writer makes of a result says what the result was
      have houtcome : ∃ found, result = .ok found ∧ outcome = Writer.outcomeOf p.range found := by
        cases result with
        | error e => simp [Writer.finish] at hfinish
        | ok found =>
            simp only [Writer.finish, Prod.mk.injEq, Except.ok.injEq] at hfinish
            exact ⟨found, rfl, hfinish.2.1.symm⟩
      obtain ⟨found, rfl, rfl⟩ := houtcome
      exact ((committed_turns _ p hresult after m).after hwriter).reporting

/-! ## Steps -/

/-- The change that a signal adds to the batch of a session. -/
def admitted (c : Consumer) (signal : Signal) : Option Change :=
  match c.phase, signal with
  | .waiting s, .item (.ok (some (.event change))) =>
    if s.cursor < change.seq ∧ c.settings.rateLimit.isNone ∧ (c.pipeline.apply change).isOk then
      some change
    else none
  | .throttled _ change, .passed => if (c.pipeline.apply change).isOk then some change else none
  | _, _ => none

theorem admitted_phase {c : Consumer} {signal : Signal} {change : Change}
    (h : c.admitted signal = some change) :
    (∃ s, c.phase = .waiting s ∧ signal = .item (.ok (some (.event change)))) ∨
      ∃ s, c.phase = .throttled s change ∧ signal = .passed := by
  unfold admitted at h
  split at h
  · rename_i s _ hphase
    split at h
    · cases h
      exact .inl ⟨s, hphase, rfl⟩
    · cases h
  · rename_i s _ hphase
    split at h
    · cases h
      exact .inr ⟨s, hphase, rfl⟩
    · cases h
  · cases h

/-- A session is about to take a change that its triggers accept. -/
structure Takes (c : Consumer) (signal : Signal) (s : Session) (change : Change)
    (intents : List Intent) : Prop where
  phase : (c.phase = .waiting s ∧ signal = .item (.ok (some (.event change))) ∧
      s.cursor < change.seq) ∨ (c.phase = .throttled s change ∧ signal = .passed)
  accepted : c.pipeline.apply change = .ok intents
  admitted : c.admitted signal = some change

/-- The phases that a signal can lead to. -/
inductive Move (c : Consumer) (signal : Signal) : ConsumerPhase → Prop where
  /-- The signal does not fit, or tells nothing new. -/
  | stay (hnone : c.admitted signal = none)
      (hskip : ∀ s change, c.phase = .waiting s → signal = .item (.ok (some (.event change))) →
        change.seq ≤ s.cursor) : Move c signal c.phase
  /-- The session is over, or has not begun. -/
  | leave {phase : ConsumerPhase} (h : phase.Quiet) : Move c signal phase
  /-- The checkpoint was read. -/
  | found {answer : Option Store.Record} {found : Option (UInt64 × Store.Record)}
      (hphase : c.phase = .reading) (hsignal : signal = .read (.ok answer))
      (hfound : Checkpoint.decodeRecord c.checkpoint answer = .ok found) :
      Move c signal (.subscribing ((found.map Prod.fst).getD 0))
  /-- The feed gave a subscription. -/
  | opened {checkpoint : UInt64} (hphase : c.phase = .subscribing checkpoint)
      (hsignal : signal = .subscribed (.ok ())) :
      Move c signal (.waiting { cursor := checkpoint })
  /-- A change has to wait for the rate limit. -/
  | held {s : Session} {change : Change} (hphase : c.phase = .waiting s)
      (hsignal : signal = .item (.ok (some (.event change)))) (hlt : s.cursor < change.seq)
      (hnone : c.admitted signal = none) : Move c signal (.throttled s change)
  /-- A change was added to the batch. -/
  | took {s : Session} {change : Change} {intents : List Intent}
      (h : c.Takes signal s change intents) :
      Move c signal (.waiting ⟨change.seq, s.batch.push change.seq intents⟩)
  /-- A change was added and the batch is full. -/
  | tookFull {s : Session} {change : Change} {intents : List Intent} {range : SeqRange}
      {time : Int} (h : c.Takes signal s change intents)
      (hrange : (s.batch.push change.seq intents).range = some range) :
      Move c signal (.committing
        (c.proposalFor range (s.batch.push change.seq intents).intents time) (.goOn change.seq))
  /-- The batch is committed as it is. -/
  | flushed {s : Session} {range : SeqRange} {time : Int} {after : AfterCommit}
      (hphase : c.phase = .waiting s ∨ ∃ change, c.phase = .throttled s change)
      (hnone : c.admitted signal = none) (hrange : s.batch.range = some range)
      (hafter : ∀ cursor, after = .goOn cursor →
        c.phase = .waiting s ∧ cursor = s.cursor ∧ signal = .elapsed) :
      Move c signal (.committing (c.proposalFor range s.batch.intents time) after)
  /-- A batch without a range has nothing to commit. -/
  | drained {s : Session} (hphase : c.phase = .waiting s) (hsignal : signal = .elapsed)
      (hrange : s.batch.range = none) (hempty : s.batch.isEmpty = false) :
      Move c signal (.waiting { cursor := s.cursor })
  /-- The store answered a read of the proposal. -/
  | read {p : Proposal} {after : AfterCommit} {answer : Except StoreFault (Option Store.Record)}
      {phase : ConsumerPhase} (hphase : c.phase = .committing p after)
      (hsignal : signal = .read answer) (h : Answered (p.onRead answer) after phase) :
      Move c signal phase
  /-- The store answered the batch of the proposal. -/
  | wrote {p : Proposal} {after : AfterCommit} {answer : Except StoreFault Unit}
      {phase : ConsumerPhase} (hphase : c.phase = .committing p after)
      (hsignal : signal = .wrote answer) (h : Answered (p.onWrite answer) after phase) :
      Move c signal phase

theorem push_range (b : Batch) (seq : UInt64) (intents : List Intent) :
    ∃ range, (b.push seq intents).range = some range := ⟨_, rfl⟩

/-- The end of a session, with or without a last commit. -/
theorem flush_move {c : Consumer} (c' : Consumer) (hkeeps : c.Keeps c') {signal : Signal}
    {s : Session}
    (hphase : c.phase = .waiting s ∨ ∃ change, c.phase = .throttled s change)
    (hnone : c.admitted signal = none) {after : AfterCommit}
    (hafter : ∀ cursor, after ≠ .goOn cursor) (m : Moment) :
    c.Turns (c'.flush s after m) (c.Move signal) := by
  cases hrange : s.batch.range with
  | none =>
      refine ((c'.flush_none_turns hrange after m).after hkeeps).imp ?_
      rintro phase (hquiet | ⟨cursor, hgoOn, -⟩)
      · exact .leave hquiet
      · exact absurd hgoOn (hafter cursor)
  | some range =>
      refine ((c'.flush_turns hrange after m).after hkeeps).imp ?_
      rintro phase (hquiet | ⟨time, rfl⟩)
      · exact .leave hquiet
      · rw [hkeeps.proposalFor]
        exact .flushed hphase hnone hrange fun cursor h => absurd h (hafter cursor)

/-- A change that a session is about to take ends up in its batch, unless its triggers refuse
it. -/
theorem apply_turns (c : Consumer) {signal : Signal} {s : Session} {change : Change}
    (hphase : (c.phase = .waiting s ∧ signal = .item (.ok (some (.event change))) ∧
      s.cursor < change.seq) ∨ (c.phase = .throttled s change ∧ signal = .passed))
    (hadds : c.admitted signal = if (c.pipeline.apply change).isOk then some change else none)
    (m : Moment) : c.Turns (c.apply s change m) (c.Move signal) := by
  unfold apply
  cases happly : c.pipeline.apply change with
  | error e =>
      have hnone : c.admitted signal = none := by
        rw [hadds, happly]
        rfl
      have hsession : c.phase = .waiting s ∨ ∃ change, c.phase = .throttled s change := by
        rcases hphase with ⟨h, -⟩ | ⟨h, -⟩
        · exact .inl h
        · exact .inr ⟨change, h⟩
      simp only
      have hkeeps : c.Keeps { c with stalledAt := some change.seq } := ⟨rfl, rfl, rfl, rfl⟩
      refine flush_move _ hkeeps hsession hnone ?_ m
      intro cursor hgoOn
      cases hgoOn
  | ok intents =>
      simp only [happly, Except.isOk, Except.toBool, if_true] at hadds
      have htakes : c.Takes signal s change intents := ⟨hphase, happly, hadds⟩
      obtain ⟨range, hrange⟩ := push_range s.batch change.seq intents
      simp only
      split
      · -- the batch is full
        refine (c.flush_turns hrange _ m).imp ?_
        rintro phase (hquiet | ⟨time, rfl⟩)
        · exact .leave hquiet
        · exact .tookFull htakes hrange
      · exact ⟨⟨rfl, rfl, rfl, rfl⟩, .took htakes⟩

theorem receive_turns (c : Consumer) {s : Session} (hphase : c.phase = .waiting s)
    (change : Change) (m : Moment) :
    c.Turns (c.receive s change m) (c.Move (.item (.ok (some (.event change))))) := by
  have hadds : c.admitted (.item (.ok (some (.event change)))) =
      if s.cursor < change.seq ∧ c.settings.rateLimit.isNone ∧
        (c.pipeline.apply change).isOk then some change else none := by
    simp only [admitted, hphase]
  apply Turns.reporting
  split
  · -- it was taken before
    rename_i hle
    refine ⟨⟨rfl, rfl, rfl, rfl⟩, ?_⟩
    rw [if_neg fun h => UInt64.not_lt.2 hle h.1] at hadds
    have hstay := Move.stay hadds fun s' change' hphase' hsignal => by
      rw [hphase] at hphase'
      cases hphase'
      cases hsignal
      exact hle
    rwa [hphase] at hstay
  · rename_i hle
    have hlt : s.cursor < change.seq := UInt64.not_le.1 hle
    split
    · -- the rate limit holds it back
      rename_i limit hlimit
      rw [if_neg fun h => by simp [hlimit] at h] at hadds
      exact ⟨⟨rfl, rfl, rfl, rfl⟩, .held hphase rfl hlt hadds⟩
    · rename_i hlimit
      apply c.apply_turns (.inl ⟨hphase, rfl, hlt⟩)
      simpa [hlt, hlimit] using hadds

theorem itemRead_turns (c : Consumer) {s : Session} (hphase : c.phase = .waiting s)
    (answer : FeedAnswer) (m : Moment) :
    c.Turns (c.itemRead s answer m) (c.Move (.item answer)) := by
  unfold itemRead
  split
  · refine flush_move c (Keeps.refl c) (.inl hphase) ?_ (by simp) m
    simp [admitted, hphase]
  · refine flush_move c (Keeps.refl c) (.inl hphase) ?_ (by simp) m
    simp [admitted, hphase]
  · refine ⟨Keeps.refl c, .stay ?_ ?_⟩
    · simp [admitted, hphase]
    · intro _ _ _ h
      cases h
  · exact c.receive_turns hphase _ m

theorem outOfPatience_turns (c : Consumer) {s : Session} (hphase : c.phase = .waiting s)
    (m : Moment) : c.Turns (c.outOfPatience s m) (c.Move .elapsed) := by
  have hnone : c.admitted .elapsed = none := by simp [admitted, hphase]
  unfold outOfPatience
  split
  · exact (c.react_turns _ m).imp fun _ => .leave
  · rename_i hempty
    -- a batch that has waited long enough is committed, if it has a range
    cases hrange : s.batch.range with
    | none =>
        refine (c.flush_none_turns hrange _ m).imp ?_
        rintro phase (hquiet | ⟨cursor, hgoOn, rfl⟩)
        · exact .leave hquiet
        · cases hgoOn
          exact .drained hphase rfl hrange (by simpa using hempty)
    | some range =>
        refine (c.flush_turns hrange _ m).imp ?_
        rintro phase (hquiet | ⟨time, rfl⟩)
        · exact .leave hquiet
        · refine .flushed (.inl hphase) hnone hrange ?_
          intro cursor h
          cases h
          exact ⟨hphase, rfl, rfl⟩

theorem checkpointRead_turns (c : Consumer) (hphase : c.phase = .reading)
    (answer : Except StoreFault (Option Store.Record)) (m : Moment) :
    c.Turns (c.checkpointRead answer m) (c.Move (.read answer)) := by
  unfold checkpointRead
  split
  · exact (c.react_turns _ m).imp fun _ => .leave
  · rename_i found hfound
    cases answer with
    | error e => cases hfound
    | ok answer => exact ⟨⟨rfl, rfl, rfl, rfl⟩, .found hphase rfl hfound⟩

/-- Every step of a consumer is one of its moves. -/
theorem step_turns (c : Consumer) (m : Moment) (signal : Signal) :
    c.Turns (c.step m signal) (c.Move signal) := by
  -- one case for each pair of a phase and a signal that fits it
  unfold step
  split
  · -- a session may begin
    split
    · exact c.finishStopped_turns.imp fun _ => .leave
    · exact ⟨⟨rfl, rfl, rfl, rfl⟩, .leave .reading⟩
  · rename_i hphase
    exact c.checkpointRead_turns hphase _ m
  · exact (c.react_turns _ m).imp fun _ => .leave
  · rename_i hphase
    exact ⟨⟨rfl, rfl, rfl, rfl⟩, .opened hphase rfl⟩
  · rename_i hphase
    exact c.itemRead_turns hphase _ m
  · rename_i hphase
    exact c.outOfPatience_turns hphase m
  · rename_i hphase
    refine flush_move c (Keeps.refl c) (.inl hphase) ?_ (by simp) m
    simp [admitted, hphase]
  · rename_i hphase
    refine c.apply_turns (.inr ⟨hphase, rfl⟩) ?_ m
    simp only [admitted, hphase]
  · rename_i hphase
    exact (c.proposed_turns _ _ m).imp fun _ => .read hphase rfl
  · rename_i hphase
    exact (c.proposed_turns _ _ m).imp fun _ => .wrote hphase rfl
  · exact ⟨⟨rfl, rfl, rfl, rfl⟩, .leave .starting⟩
  · exact ⟨⟨rfl, rfl, rfl, rfl⟩, .leave .starting⟩
  · exact ⟨⟨rfl, rfl, rfl, rfl⟩, .leave .finished⟩
  · exact ⟨⟨rfl, rfl, rfl, rfl⟩, .leave .starting⟩
  · exact ⟨⟨rfl, rfl, rfl, rfl⟩, .leave .finished⟩
  · -- the signal does not fit
    rename_i _ _ _ _ hitem _ _ hpassed _ _ _ _ _ _ _
    refine ⟨Keeps.refl c, .stay ?_ ?_⟩
    · cases hadds : c.admitted _ with
      | none => rfl
      | some change =>
          rcases admitted_phase hadds with ⟨s, hphase, hsignal⟩ | ⟨s, hphase, hsignal⟩
          · exact (hitem s _ hphase hsignal).elim
          · exact (hpassed s change hphase hsignal).elim
    · intro s change hphase hsignal
      exact (hitem _ _ hphase hsignal).elim

end Consumer

end ChangeRelay
