import ChangeRelay.Proofs.Stream.Health

/-!
# Backoffs in a row

A consumer counts the backoffs that it has entered since a commit last found its range written or an
operator last ended a pause, and publishes the count. The delay that it waits is not the one of the
number it publishes: it is taken before the count goes up, so that every delay of the schedule
comes one backoff late, and the first backoff has the initial delay whatever the ceiling.
-/

namespace ChangeRelay

def ConsumerPhase.isBackoff : ConsumerPhase → Bool
  | .backingOff _ => true
  | _ => false

theorem ConsumerPhase.isBackoff_of_inSession {phase : ConsumerPhase}
    (h : phase.inSession = true) : phase.isBackoff = false := by
  cases phase with
  | backingOff delay => cases h
  | _ => rfl

namespace Consumer

variable {c : Consumer} {m : Moment} {signal : Signal}

/-- Whether a signal has the count of backoffs begin anew. -/
def resets (c : Consumer) (signal : Signal) : Bool :=
  c.settles signal ||
    match c.phase, signal with
    | .paused, .resumed => true
    | _, _ => false

/-- The backoffs that still count when a signal has come. -/
def standing (c : Consumer) (signal : Signal) : Nat := if c.resets signal then 0 else c.attempt

/-- The delay of a backoff that a consumer enters: the count is not up yet. -/
def nextDelay (c : Consumer) (m : Moment) (signal : Signal) : Duration :=
  c.settings.retry.jitteredDelay (c.standing signal) m.spread

theorem resets_eq_settles (h : c.phase ≠ .paused ∨ signal ≠ .resumed) :
    c.resets signal = c.settles signal := by
  unfold resets
  split
  · rename_i hphase
    exact absurd hphase (h.resolve_right fun hsignal => hsignal rfl)
  · exact Bool.or_false _

theorem Comes.attempt_eq (hin : c.phase.inSession = true) {c' : Consumer}
    (h : c.Comes signal c') : c'.attempt = c.standing signal := by
  have hpaused : c.phase ≠ .paused := by
    intro hphase
    rw [hphase] at hin
    cases hin
  rw [h.attempt, standing, resets_eq_settles (.inl hpaused)]

/-- What becomes of the count on a signal: it is kept, or begins anew, and a backoff that is entered
adds one. -/
inductive Counts (c : Consumer) (m : Moment) (signal : Signal) (s : ConsumerStep) : Prop where
  /-- A backoff lasts. -/
  | lasts (h : s = (c, [])) (hstanding : c.standing signal = c.attempt)
  | apart (hphase : s.1.phase.isBackoff = false) (hattempt : s.1.attempt = c.standing signal)
  | enters (hbefore : c.phase.isBackoff = false)
      (hphase : s.1.phase = .backingOff (c.nextDelay m signal))
      (hattempt : s.1.attempt = c.standing signal + 1)
      (hpublished : published? s =
        some (.backoff (c.standing signal + 1) (m.now.later (c.nextDelay m signal))))

theorem Comes.counts (hin : c.phase.inSession = true) {c' : Consumer} (h : c.Comes signal c')
    (e : StreamFault) {readings : List Metrics.Reading} (hquiet : Metrics.Quiet readings) :
    c.Counts m signal (reporting readings (c'.react e m)) := by
  have hattempt := h.attempt_eq hin
  have hbefore := ConsumerPhase.isBackoff_of_inSession hin
  have hwait : c'.settings.retry.jitteredDelay c'.attempt m.spread = c.nextDelay m signal := by
    rw [nextDelay, h.settings, hattempt]
  have hpublished : published? (reporting readings (c'.react e m)) = some (c'.reaction e m) := by
    rw [published?_reporting hquiet, published?_react]
  cases e with
  | transientSource | transientStore =>
      simp only [reaction, StreamFault.isRetryable, if_true] at hpublished
      rw [hwait, hattempt] at hpublished
      refine .enters hbefore ?_ ?_ hpublished
      · exact congrArg ConsumerPhase.backingOff hwait
      · exact congrArg (· + 1) hattempt
  | _ => exact .apart rfl hattempt

theorem Works.not_backoff {phase : ConsumerPhase} (h : c.Works signal phase) :
    phase.isBackoff = false := by
  rcases h.active with rfl | hphase
  · rfl
  · exact ConsumerPhase.isBackoff_of_inSession hphase

theorem step_counts (c : Consumer) (m : Moment) (signal : Signal) :
    c.Counts m signal (c.step m signal) := by
  have hfares := c.step_fares m signal
  generalize c.step m signal = s at hfares ⊢
  -- outside of a session the count stands, unless a pause ends
  have hstands : c.settles signal = false → (c.phase ≠ .paused ∨ signal ≠ .resumed) →
      c.attempt = c.standing signal := by
    intro hsettles hresumed
    simp [standing, resets_eq_settles hresumed, hsettles]
  cases hfares with
  | session hin hgoes =>
      cases hgoes with
      | reacts hfault horigin hcomes hquiet => exact hcomes.counts hin _ hquiet
      | works hfault hcomes hphase => exact .apart hphase.not_backoff (hcomes.attempt_eq hin)
      | stops hfault hcomes => exact .apart rfl (hcomes.attempt_eq hin)
  | resumes hphase hsignal => exact .apart rfl (by simp [standing, resets, hphase, hsignal]; rfl)
  | quits hphase hsignal =>
      refine .apart rfl (hstands ?_ (.inr (by simp [hsignal])))
      rcases hphase with hphase | ⟨delay, hphase⟩ <;> simp [settles, hphase]
  | idle _ _ _ hsettles hwait =>
      refine .lasts rfl (hstands hsettles ?_).symm
      by_cases hphase : c.phase = .paused
      · exact .inr (hwait (.inl hphase)).1
      · exact .inl hphase
  | opens hphase | begins hphase | refrains hphase | hastens hphase | elapses hphase =>
      exact .apart rfl (hstands (by simp [settles, hphase]) (.inl (by simp [hphase])))

theorem step_settings (c : Consumer) (m : Moment) (signal : Signal) :
    (c.step m signal).1.settings = c.settings := by
  have hfares := c.step_fares m signal
  generalize c.step m signal = s at hfares ⊢
  cases hfares with
  | session hin hgoes =>
      cases hgoes with
      | @reacts c' e readings hfault horigin hcomes hquiet =>
          rw [← hcomes.settings]
          cases e <;> rfl
      | works hfault hcomes => exact hcomes.settings
      | stops hfault hcomes => exact hcomes.settings
  | _ => rfl

end Consumer

/-- A consumer, and the backoffs it has entered since their count began anew. -/
structure Tallied where
  consumer : Consumer
  backoffs : Nat := 0

namespace Tallied

variable {t : Tallied}

def step (t : Tallied) (m : Moment) (signal : Signal) : Tallied :=
  let s := t.consumer.step m signal
  let kept := if t.consumer.resets signal then 0 else t.backoffs
  { consumer := s.1
    backoffs := if !t.consumer.phase.isBackoff && s.1.phase.isBackoff then kept + 1 else kept }

def run (t : Tallied) (events : List (Moment × Signal)) : Tallied :=
  events.foldl (fun t e => t.step e.1 e.2) t

theorem run_append_singleton (t : Tallied) (events : List (Moment × Signal))
    (e : Moment × Signal) : t.run (events ++ [e]) = (t.run events).step e.1 e.2 := by
  simp [run]

/-- The consumer counts right. -/
structure Right (settings : ConsumerSettings) (t : Tallied) : Prop where
  attempt : t.consumer.attempt = t.backoffs
  settings : t.consumer.settings = settings

theorem Right.step {settings : ConsumerSettings} (h : Right settings t) (m : Moment)
    (signal : Signal) : Right settings (t.step m signal) := by
  have hcounts := t.consumer.step_counts m signal
  have hkept : t.consumer.standing signal = if t.consumer.resets signal then 0 else t.backoffs := by
    rw [Consumer.standing, h.attempt]
  refine ⟨?_, (t.consumer.step_settings m signal).trans h.settings⟩
  unfold Tallied.step
  cases hcounts with
  | lasts hstep hstanding =>
      rw [hstep, ← hkept, hstanding]
      simp
  | apart hphase hattempt => simp [hphase, hattempt, hkept]
  | enters hbefore hphase hattempt =>
      have hafter : (t.consumer.step m signal).1.phase.isBackoff = true := by
        rw [hphase]
        rfl
      simp [hbefore, hafter, hattempt, hkept]

/-- A consumer before its first session. -/
def new (d : StreamDefinition) (pipeline : Pipeline) (settings : SupervisorSettings) : Tallied :=
  { consumer := .new d pipeline settings }

end Tallied

end ChangeRelay
