import ChangeRelay.Proofs.Stream.Leaving

/-!
# Faults that end a session

A session that halts, or makes a last commit before it does, has been told of a fault by the feed or
had a change refused by its triggers, unless the commit itself fails. Which fault it is and where it
has the stream halt is kept through the last commit.
-/

namespace ChangeRelay

open Checkpoint (Proposal)

/-! ## Kinds of faults -/

/-- A fault that halts its stream, instead of a further attempt or the end of the stream. -/
def StreamFault.Halts (f : StreamFault) : Prop := f.isRetryable = false ∧ ∀ text, f ≠ .config text

/-- Only triggers refuse a change. -/
theorem Pipeline.apply_error {p : Pipeline} {c : Change} {f : StreamFault}
    (h : p.apply c = .error f) : ∃ stage reason, f = .trigger stage reason := by
  have hfrom : ∀ stages index, Pipeline.applyFrom p.consumer c index stages = .error f →
      ∃ stage reason, f = .trigger stage reason := by
    intro stages
    induction stages with
    | nil =>
        intro index h
        cases h
    | cons stage rest ih =>
        intro index h
        rw [Pipeline.applyFrom] at h
        split at h
        · cases h
          exact ⟨_, _, rfl⟩
        · split at h
          · rename_i e hrest
            cases h
            exact ih _ hrest
          · cases h
  exact hfrom _ _ h

namespace Consumer

theorem haltedAt_eq (c : Consumer) (f : StreamFault) :
    c.haltedAt f = f.sequence?.or c.stalledAt := by
  unfold haltedAt
  cases f.sequence? <;> rfl

/-- A signal that ends a session with a fault, and the change that was refused, if one was. -/
inductive Faults (c : Consumer) : Signal → StreamFault → Option UInt64 → Prop where
  /-- The fault waits for the last commit. -/
  | pending {signal : Signal} {p : Proposal} {f : StreamFault}
      (hphase : c.phase = .committing p (.fail f)) : c.Faults signal f c.stalledAt
  | refused {signal : Signal} {s : Session} {change : Change} {f : StreamFault}
      (hphase : (c.phase = .waiting s ∧ signal = .item (.ok (some (.event change))) ∧
        s.cursor < change.seq) ∨ c.phase = .throttled s change)
      (happly : c.pipeline.apply change = .error f) : c.Faults signal f (some change.seq)
  | item {s : Session} {e : FeedFault} (hphase : c.phase = .waiting s) :
      c.Faults (.item (.error e)) e.toStream c.stalledAt
  /-- The feed has ended, or is silent. -/
  | idle {signal : Signal} {f : StreamFault} (hretry : f.isRetryable = true) :
      c.Faults signal f c.stalledAt
  | unsubscribed {checkpoint : UInt64} {e : FeedFault}
      (hphase : c.phase = .subscribing checkpoint) :
      c.Faults (.subscribed (.error e)) e.toStream c.stalledAt

/-- A consumer whose session ends with a fault: it halts, or has a last commit to make. -/
def Breaks (c : Consumer) : Prop :=
  c.phase = .paused ∨ ∃ p f, c.phase = .committing p (.fail f)

/-- A consumer whose session ends with this fault. -/
inductive BreaksFor (c : Consumer) (f : StreamFault) (stalledAt : Option UInt64) : Prop where
  | committing {p : Proposal} (hphase : c.phase = .committing p (.fail f))
      (hstalled : c.stalledAt = stalledAt)
  | paused (hphase : c.phase = .paused) (hhalts : f.Halts)
      (hhealth : c.health = .paused (f.sequence?.or stalledAt) f.message)

variable {c : Consumer} {m : Moment} {signal : Signal} {after : AfterCommit} {s : Session}

theorem not_breaks_waiting (h : c.phase = .waiting s) : ¬ c.Breaks := by
  rintro (hphase | ⟨p, f, hphase⟩) <;>
  · rw [h] at hphase
    cases hphase

/-! ## Ends of a session -/

/-- A fault leaves nothing to commit. -/
theorem react_ne_committing (c : Consumer) (e : StreamFault) (m : Moment) (p : Proposal)
    (after : AfterCommit) : (c.react e m).1.phase ≠ .committing p after := by
  intro hphase
  have hquiet := (c.react_turns e m).phase
  rw [hphase] at hquiet
  cases hquiet

theorem react_breaks {e : StreamFault} (h : (c.react e m).1.Breaks) :
    (c.react e m).1.BreaksFor e c.stalledAt := by
  have hpaused : (c.react e m).1.phase = .paused := by
    rcases h with hphase | ⟨p, f, hphase⟩
    · exact hphase
    · exact (react_ne_committing _ _ _ _ _ hphase).elim
  unfold react at hpaused ⊢
  split at hpaused
  · cases hpaused
  · rename_i hconfig
    split at hpaused
    · cases hpaused
    · rename_i hretry
      simp only [hretry, Bool.false_eq_true, if_false]
      refine .paused rfl ⟨by simpa using hretry, hconfig⟩ ?_
      rw [← haltedAt_eq]
      rfl

theorem proceed_breaks (h : (c.proceed after m).1.Breaks) :
    ∃ f, after = .fail f ∧ (c.proceed after m).1.BreaksFor f c.stalledAt := by
  cases after with
  | goOn cursor => exact absurd h (not_breaks_waiting rfl)
  | stop =>
      rcases h with hphase | ⟨p, f, hphase⟩
      · cases hphase
      · cases hphase
  | fail f => exact ⟨f, rfl, react_breaks h⟩

theorem flush_breaks (h : (c.flush s after m).1.Breaks)
    (hok : (c.flush s after m).1.phase = .paused → s.batch.range ≠ none →
      ∀ e, (c.writer.enter m.recovered).2.1 ≠ .error e) :
    ∃ f, after = .fail f ∧ (c.flush s after m).1.BreaksFor f c.stalledAt := by
  cases hrange : s.batch.range with
  | none =>
      simp only [flush, hrange] at h ⊢
      exact proceed_breaks h
  | some range =>
      rcases henter : c.writer.enter m.recovered with ⟨writer, answer, readings⟩
      rw [hrange, henter] at hok
      simp only [flush, hrange, henter] at h hok ⊢
      cases answer with
      | error e =>
          -- the breaker refuses, and this is no end for a reason of its own
          rcases h with hphase | ⟨p, f, hphase⟩
          · exact absurd rfl (hok hphase (by simp) e)
          · exact (react_ne_committing _ _ _ _ _ hphase).elim
      | ok u =>
          rcases h with hphase | ⟨p, f, hphase⟩
          · cases hphase
          · cases hphase
            exact ⟨f, rfl, .committing rfl rfl⟩

theorem apply_breaks {change : Change} (h : (c.apply s change m).1.Breaks)
    (hok : (c.apply s change m).1.phase = .paused →
      s.batch.range ≠ none ∨ (c.pipeline.apply change).isOk →
      ∀ e, (c.writer.enter m.recovered).2.1 ≠ .error e) :
    ∃ f, c.pipeline.apply change = .error f ∧
      (c.apply s change m).1.BreaksFor f (some change.seq) := by
  cases happly : c.pipeline.apply change with
  | error f =>
      simp only [apply, happly] at h hok ⊢
      obtain ⟨f', hf, hbreaks⟩ := flush_breaks h fun hphase hrange => hok hphase (.inl hrange)
      cases hf
      exact ⟨f, rfl, hbreaks⟩
  | ok intents =>
      exfalso
      simp only [apply, happly] at h hok
      split at h
      · rename_i hfull
        rw [if_pos hfull] at hok
        obtain ⟨f, hf, -⟩ := flush_breaks h fun hphase _ => hok hphase (.inr rfl)
        cases hf
      · exact not_breaks_waiting rfl h

theorem receive_breaks (hphase : c.phase = .waiting s) (change : Change)
    (h : (c.receive s change m).1.Breaks)
    (hok : (c.receive s change m).1.phase = .paused →
      ¬ c.CommitFails m (.item (.ok (some (.event change))))) :
    ∃ f stalledAt, c.Faults (.item (.ok (some (.event change)))) f stalledAt ∧
      (c.receive s change m).1.BreaksFor f stalledAt := by
  unfold receive at h hok ⊢
  by_cases hle : change.seq ≤ s.cursor
  · rw [if_pos hle] at h
    exact absurd h (not_breaks_waiting rfl)
  · have hlt := UInt64.not_le.1 hle
    rw [if_neg hle] at h hok ⊢
    cases hlimit : c.settings.rateLimit with
    | some limit =>
        simp only [hlimit] at h
        rcases h with hpaused | ⟨p, f, hcommitting⟩
        · cases hpaused
        · cases hcommitting
    | none =>
        simp only [hlimit] at h hok ⊢
        obtain ⟨f, hf, hbreaks⟩ := apply_breaks h fun hpaused hbatch fault hfault => by
          refine hok hpaused (.refused (.inl hphase) (hbatch.imp_right fun hsome => ?_) hfault)
          simp [admitted, hphase, hlt, hlimit, hsome]
        exact ⟨_, _, .refused (.inl ⟨hphase, rfl, hlt⟩) hf, hbreaks⟩

theorem itemRead_breaks (hphase : c.phase = .waiting s) (answer : FeedAnswer)
    (h : (c.itemRead s answer m).1.Breaks)
    (hok : (c.itemRead s answer m).1.phase = .paused → ¬ c.CommitFails m (.item answer)) :
    ∃ f stalledAt, c.Faults (.item answer) f stalledAt ∧
      (c.itemRead s answer m).1.BreaksFor f stalledAt := by
  have hcollecting : c.Collecting s := .inl hphase
  rcases answer with e | _ | change | _
  · obtain ⟨f, hf, hbreaks⟩ := flush_breaks h fun hpaused hrange fault hfault =>
      hok hpaused (.refused hcollecting (.inl hrange) hfault)
    cases hf
    exact ⟨_, _, .item hphase, hbreaks⟩
  · obtain ⟨f, hf, hbreaks⟩ := flush_breaks h fun hpaused hrange fault hfault =>
      hok hpaused (.refused hcollecting (.inl hrange) hfault)
    cases hf
    exact ⟨_, _, .idle rfl, hbreaks⟩
  · exact receive_breaks hphase change h hok
  · exact absurd h (not_breaks_waiting hphase)

theorem proposed_breaks {p : Proposal} (h : (c.proposed p after m).1.Breaks)
    (hok : (c.proposed p after m).1.phase = .paused → ∀ e, p.result? ≠ some (.error e)) :
    ∃ f, after = .fail f ∧ (c.proposed p after m).1.BreaksFor f c.stalledAt := by
  cases hresult : p.result? with
  | none =>
      simp only [proposed, hresult] at h ⊢
      rcases h with hphase | ⟨p, f, hphase⟩
      · cases hphase
      · cases hphase
        exact ⟨f, rfl, .committing rfl rfl⟩
  | some result =>
      rcases hfinish : c.writer.finish p.range result with ⟨writer, answer, readings⟩
      simp only [proposed, hresult, hfinish] at h hok ⊢
      cases answer with
      | error e =>
          have herror : ∃ e', result = .error e' := by
            cases result with
            | error e' => exact ⟨e', rfl⟩
            | ok found => simp [Writer.finish] at hfinish
          obtain ⟨e', rfl⟩ := herror
          rcases h with hphase | ⟨p', f, hphase⟩
          · exact absurd rfl (hok hphase e')
          · exact (react_ne_committing _ _ _ _ _ hphase).elim
      | ok outcome =>
          have hproceed : ∀ c' : Consumer, c'.stalledAt = c.stalledAt →
              (c'.proceed after m).1.Breaks →
                ∃ f, after = .fail f ∧ (c'.proceed after m).1.BreaksFor f c.stalledAt := by
            intro c' hstalled hbreaks
            rw [← hstalled]
            exact proceed_breaks hbreaks
          cases outcome with
          | applied => exact hproceed { c with writer, attempt := 0 } rfl h
          | alreadyApplied current => exact hproceed { c with writer, attempt := 0 } rfl h
          | overlap current =>
              cases after with
              | goOn cursor =>
                  rcases h with hphase | ⟨p, f, hphase⟩
                  · cases hphase
                  · cases hphase
              | stop => exact hproceed { c with writer } rfl h
              | fail f => exact hproceed { c with writer } rfl h

/-! ## Steps -/

/-- A signal that is not for a phase neither ends the session nor has it commit. -/
theorem not_breaks_of_stay {phase : ConsumerPhase} (hphase : c.phase = phase)
    (hstay : (c.step m signal).1 = c) (hpaused : phase ≠ .paused)
    (hcommitting : ∀ p f, phase ≠ .committing p (.fail f)) : ¬ (c.step m signal).1.Breaks := by
  rw [hstay]
  rintro (heq | ⟨p, f, heq⟩)
  · exact hpaused (hphase.symm.trans heq)
  · exact hcommitting p f (hphase.symm.trans heq)

theorem waiting_breaks (hphase : c.phase = .waiting s) (h : (c.step m signal).1.Breaks)
    (hok : (c.step m signal).1.phase = .paused → ¬ c.CommitFails m signal) :
    ∃ f stalledAt, c.Faults signal f stalledAt ∧ (c.step m signal).1.BreaksFor f stalledAt := by
  cases signal with
  | item answer =>
      simp only [step, hphase] at h hok ⊢
      exact itemRead_breaks hphase answer h hok
  | elapsed =>
      simp only [step, hphase, outOfPatience] at h hok ⊢
      split at h
      · rename_i hempty
        rw [if_pos hempty]
        exact ⟨_, _, .idle rfl, react_breaks h⟩
      · rename_i hempty
        rw [if_neg hempty] at hok
        obtain ⟨f, hf, -⟩ := flush_breaks h fun hpaused hrange fault hfault =>
          hok hpaused (.refused (.inl hphase) (.inl hrange) hfault)
        cases hf
  | stop =>
      simp only [step, hphase] at h hok
      obtain ⟨f, hf, -⟩ := flush_breaks h fun hpaused hrange fault hfault =>
        hok hpaused (.refused (.inl hphase) (.inl hrange) hfault)
      cases hf
  | _ =>
      exact absurd h (not_breaks_of_stay hphase (by simp only [step, hphase])
        (by simp) (by simp))

theorem throttled_breaks {change : Change} (hphase : c.phase = .throttled s change)
    (h : (c.step m signal).1.Breaks)
    (hok : (c.step m signal).1.phase = .paused → ¬ c.CommitFails m signal) :
    ∃ f stalledAt, c.Faults signal f stalledAt ∧ (c.step m signal).1.BreaksFor f stalledAt := by
  cases signal with
  | passed =>
      simp only [step, hphase] at h hok ⊢
      obtain ⟨f, hf, hbreaks⟩ := apply_breaks h fun hpaused hbatch fault hfault => by
        refine hok hpaused (.refused (.inr ⟨change, hphase⟩)
          (hbatch.imp_right fun hsome => ?_) hfault)
        simp [admitted, hphase, hsome]
      exact ⟨_, _, .refused (.inr hphase) hf, hbreaks⟩
  | _ =>
      exact absurd h (not_breaks_of_stay hphase (by simp only [step, hphase])
        (by simp) (by simp))

theorem committing_breaks {p : Proposal} (hphase : c.phase = .committing p after)
    (h : (c.step m signal).1.Breaks)
    (hok : (c.step m signal).1.phase = .paused → ¬ c.CommitFails m signal) :
    ∃ f stalledAt, c.Faults signal f stalledAt ∧ (c.step m signal).1.BreaksFor f stalledAt := by
  have hstep : (c.step m signal).1 = c ∨
      (c.step m signal).1 = (c.proposed (p.told signal) after m).1 := by
    cases signal with
    | read answer => exact .inr (by simp only [step, hphase, Proposal.told])
    | wrote answer => exact .inr (by simp only [step, hphase, Proposal.told])
    | _ => exact .inl (by simp only [step, hphase])
  rcases hstep with hstay | hstep
  · rw [hstay] at h ⊢
    rcases h with hpaused | ⟨p', f, hcommitting⟩
    · rw [hphase] at hpaused
      cases hpaused
    · rw [hphase] at hcommitting
      cases hcommitting
      exact ⟨f, _, .pending hphase, .committing hphase rfl⟩
  · rw [hstep] at h hok ⊢
    obtain ⟨f, rfl, hbreaks⟩ := proposed_breaks h fun hpaused e he =>
      hok hpaused (.failed hphase he)
    exact ⟨f, _, .pending hphase, hbreaks⟩

/-- Only a session comes to a commit. -/
theorem not_quiet_of_committing {p : Proposal}
    (h : (c.step m signal).1.phase = .committing p after) : ¬ c.phase.Quiet := by
  intro hquiet
  have hsession : (∀ s, c.phase ≠ .waiting s) ∧ (∀ s change, c.phase ≠ .throttled s change) ∧
      ∀ p after, c.phase ≠ .committing p after := by
    generalize c.phase = phase at hquiet
    cases hquiet <;> simp
  obtain ⟨hwaiting, hthrottled, hcommitting⟩ := hsession
  have hmove : c.Move signal (c.step m signal).1.phase := (c.step_turns m signal).phase
  generalize (c.step m signal).1.phase = phase at h hmove
  cases hmove with
  | stay => exact hcommitting p after h
  | leave hquiet =>
      rw [h] at hquiet
      cases hquiet
  | tookFull htakes =>
      rcases htakes.phase with ⟨hphase, -⟩ | ⟨hphase, -⟩
      · exact hwaiting _ hphase
      · exact hthrottled _ _ hphase
  | flushed hphase =>
      rcases hphase with hphase | ⟨change, hphase⟩
      · exact hwaiting _ hphase
      · exact hthrottled _ _ hphase
  | read hphase => exact hcommitting _ _ hphase
  | wrote hphase => exact hcommitting _ _ hphase
  | _ => cases h

/-- A session that ends with a fault ends for what it was told, or for what it was told before its
last commit. -/
theorem step_breaks (hin : ¬ c.phase.Quiet) (h : (c.step m signal).1.Breaks)
    (hok : (c.step m signal).1.phase = .paused → ¬ c.CommitFails m signal) :
    ∃ f stalledAt, c.Faults signal f stalledAt ∧ (c.step m signal).1.BreaksFor f stalledAt := by
  cases hphase : c.phase with
  | starting => exact absurd (hphase ▸ .starting) hin
  | reading => exact absurd (hphase ▸ .reading) hin
  | backingOff delay => exact absurd (hphase ▸ .backingOff delay) hin
  | paused => exact absurd (hphase ▸ .paused) hin
  | finished => exact absurd (hphase ▸ .finished) hin
  | waiting s => exact waiting_breaks hphase h hok
  | throttled s change => exact throttled_breaks hphase h hok
  | committing p after => exact committing_breaks hphase h hok
  | subscribing checkpoint =>
      cases signal with
      | subscribed answer =>
          cases answer with
          | error e =>
              simp only [step, hphase] at h ⊢
              exact ⟨_, _, .unsubscribed hphase, react_breaks h⟩
          | ok u =>
              simp only [step, hphase] at h
              exact absurd h (not_breaks_waiting rfl)
      | _ =>
          exact absurd h (not_breaks_of_stay hphase (by simp only [step, hphase])
            (by simp) (by simp))

end Consumer

end ChangeRelay
