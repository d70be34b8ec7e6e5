import ChangeRelay.Proofs.Stream.Health

/-!
# Reactions to faults

A consumer answers the fault that ended a session with a health of the fault's class: a backoff, the
end of the stream, or a pause at the change that the fault is about. One fault falls between the
classes. A stored record that cannot be decoded neither is worth another attempt nor counts as a
reason to halt, and the consumer halts all the same; and when it meets such a record while it
commits what precedes a refused change, it halts at that change, of which the fault says nothing.
-/

namespace ChangeRelay

open Checkpoint (Proposal)
open Consumer (published?)

/-- A fault that comes of a stored record which cannot be decoded. -/
def StreamFault.OfCorrupt (e : StreamFault) : Prop :=
  ∃ bucket key reason, e = (StoreFault.corrupt bucket key reason).toStream

/-- The change that a fault is about, if there is one: that of triggers is about the change which
they refused. -/
def StreamFault.about? (e : StreamFault) (refused : Option Change) : Option UInt64 :=
  match e with
  | .trigger _ _ => refused.map Change.seq
  | e => e.sequence?

/-- Whose fault it is that is no fault of the store: the triggers refused a change, or the feed
failed before they refused any. -/
inductive Blames (pipeline : Pipeline) (refused : Option Change) (f : StreamFault) : Prop where
  | triggers {x : Change} (hrefused : refused = some x) (happly : pipeline.apply x = .error f)
  | feed {e : FeedFault} (hrefused : refused = none) (hf : f = e.toStream)

/-- A health answers the fault of a session that had this change refused. -/
structure Answers (pipeline : Pipeline) (refused : Option Change) (e : StreamFault)
    (h : StreamHealth) : Prop where
  backoff : (∃ attempt next, h = .backoff attempt next) ↔ e.isRetryable = true
  failed : ∀ reason, h = .failed reason ↔ e = .config reason
  paused : (∃ seq reason, h = .paused seq reason) ↔ e.pausesStream = true ∨ e.OfCorrupt
  /-- A pause is where the fault is, if it is a reason to halt, and else at the refused change. -/
  pinned : ∀ seq reason, h = .paused seq reason → reason = e.message ∧
    seq = if e.pausesStream then e.about? refused else refused.map Change.seq
  /-- What triggers are blamed for is the change that was refused. -/
  refusal : ∀ stage reason, e = .trigger stage reason →
    ∃ x, refused = some x ∧ pipeline.apply x = .error e

namespace Consumer

variable {c : Consumer} {pipeline : Pipeline} {refused : Option Change} {m : Moment}
  {signal : Signal}

theorem answers_of_store (hstalled : c.stalledAt = refused.map Change.seq) (e : StoreFault) :
    Answers pipeline refused e.toStream (c.reaction e.toStream m) := by
  cases e with
  | corrupt bucket key reason =>
      have hcorrupt : (StoreFault.corrupt bucket key reason).toStream.OfCorrupt := ⟨_, _, _, rfl⟩
      constructor <;>
        simp_all [reaction, StoreFault.toStream, StreamFault.isRetryable, StreamFault.pausesStream,
          StreamFault.sequence?]
  | _ =>
      constructor <;>
        simp [reaction, StoreFault.toStream, StreamFault.isRetryable, StreamFault.pausesStream,
          StreamFault.OfCorrupt]

theorem answers_of_feed (hrefused : refused = none) (hstalled : c.stalledAt = none)
    (e : FeedFault) : Answers pipeline refused e.toStream (c.reaction e.toStream m) := by
  subst hrefused
  cases e <;> constructor <;>
    simp [reaction, FeedFault.toStream, StoreFault.toStream, StreamFault.isRetryable,
      StreamFault.pausesStream, StreamFault.OfCorrupt, StreamFault.about?, StreamFault.sequence?,
      hstalled]

theorem answers_of_trigger {x : Change} {f : StreamFault} (hrefused : refused = some x)
    (happly : pipeline.apply x = .error f) (hstalled : c.stalledAt = refused.map Change.seq) :
    Answers pipeline refused f (c.reaction f m) := by
  obtain ⟨stage, reason, rfl⟩ := Pipeline.apply_error happly
  subst hrefused
  constructor <;>
    simp [reaction, StoreFault.toStream, StreamFault.isRetryable, StreamFault.pausesStream,
      StreamFault.OfCorrupt, StreamFault.about?, StreamFault.sequence?, hstalled, happly]

/-- Whether a session begins on a signal. -/
def begins (c : Consumer) (signal : Signal) : Bool :=
  match c.phase, signal with
  | .starting, .start stop => !stop
  | _, _ => false

theorem begins_eq_false (h : c.phase = .starting → ∀ stop, signal ≠ .start stop) :
    c.begins signal = false := by
  unfold begins
  split
  · rename_i hphase
    exact absurd rfl (h hphase _)
  · rfl

theorem begins_of_inSession (h : c.phase.inSession = true) : c.begins signal = false := by
  apply begins_eq_false
  intro hphase
  rw [hphase] at h
  cases h

theorem inSession_of_quiet {phase : ConsumerPhase} (h : phase.Quiet) (hreading : phase ≠ .reading) :
    phase.inSession = false := by
  cases h with
  | reading => exact absurd rfl hreading
  | _ => rfl

/-- A reaction ends the session. -/
theorem react_inSession (c : Consumer) (e : StreamFault) (m : Moment) :
    (c.react e m).1.phase.inSession = false := by
  refine inSession_of_quiet (c.react_turns e m).phase ?_
  unfold react
  split
  · nofun
  · split <;> nofun

/-- What a session returns, its consumer reacts to. -/
theorem reacts_of_sessionFault? {e : StreamFault} (h : c.sessionFault? m signal = some e) :
    ∃ c' readings, c.step m signal = reporting readings (c'.react e m) ∧ c.Origin signal e ∧
      c.Comes signal c' ∧ Metrics.Quiet readings := by
  have hin := inSession_of_sessionFault? h
  have hfares := c.step_fares m signal
  generalize c.step m signal = s at hfares ⊢
  cases hfares with
  | session _ hgoes =>
      cases hgoes with
      | reacts hfault horigin hcomes hquiet =>
          rw [h] at hfault
          cases hfault
          exact ⟨_, _, rfl, horigin, hcomes, hquiet⟩
      | works hfault =>
          rw [h] at hfault
          cases hfault
      | stops hfault =>
          rw [h] at hfault
          cases hfault
  | opens hphase hsignal => simp [sessionFault?, hphase, hsignal] at h
  | idle _ hfault =>
      rw [h] at hfault
      cases hfault
  | quits hphase =>
      rcases hphase with hphase | ⟨delay, hphase⟩ <;>
      · rw [hphase] at hin
        cases hin
  | begins hphase | refrains hphase | resumes hphase | hastens hphase | elapses hphase =>
      rw [hphase] at hin
      cases hin

/-- What a step says of the stream that reacts to no fault. -/
inductive Says (c : Consumer) (s : ConsumerStep) : Prop where
  | nothing (hnone : published? s = none) (hhealth : s.1.health = c.health)
      (hphase : c.phase.inSession = true ∨ s.1.phase.inSession = false)
  | connecting (h : published? s = some .connecting)
  | streaming (h : published? s = some .streaming) (hin : c.phase.inSession = true)
  | stopped (h : published? s = some .stopped) (hphase : s.1.phase = .finished)

theorem says_finishStopped (c' : Consumer) {readings : List Metrics.Reading}
    (hquiet : Metrics.Quiet readings) : c.Says (reporting readings c'.finishStopped) := by
  refine .stopped ?_ rfl
  rw [published?_reporting hquiet]
  exact published?_publish _ _

theorem says_of_calm (h : c.sessionFault? m signal = none) : c.Says (c.step m signal) := by
  have hfares := c.step_fares m signal
  generalize c.step m signal = s at hfares ⊢
  have hrestart : ∀ c' : Consumer, c'.health = c.health → c.Says c'.restart := fun c' hhealth =>
    .nothing (published?_of_quiet Metrics.quiet_nil) hhealth (.inr rfl)
  cases hfares with
  | session hin hgoes =>
      cases hgoes with
      | reacts hfault =>
          rw [h] at hfault
          cases hfault
      | works hfault hcomes hphase hquiet =>
          exact .nothing (published?_of_quiet hquiet) hcomes.health (.inl hin)
      | stops hfault hcomes hquiet => exact says_finishStopped _ hquiet
  | opens hphase => exact .streaming (published?_publish _ _) (by rw [hphase]; rfl)
  | begins => exact .connecting (published?_publish _ _)
  | refrains => exact says_finishStopped _ Metrics.quiet_nil
  | resumes => exact hrestart _ rfl
  | hastens => exact hrestart _ rfl
  | elapses => exact hrestart _ rfl
  | quits => exact says_finishStopped _ Metrics.quiet_nil
  | idle =>
      refine .nothing (published?_of_quiet Metrics.quiet_nil) rfl ?_
      cases c.phase.inSession <;> simp

/-- What shows goes on to show until something else is published. -/
theorem health_of_unpublished (h : published? (c.step m signal) = none) :
    (c.step m signal).1.health = c.health := by
  cases hfault : c.sessionFault? m signal with
  | some e =>
      obtain ⟨c', readings, hstep, -, -, hquiet⟩ := reacts_of_sessionFault? hfault
      rw [hstep, published?_reporting hquiet, published?_react] at h
      cases h
  | none =>
      cases says_of_calm hfault with
      | nothing _ hhealth => exact hhealth
      | connecting hsaid | streaming hsaid | stopped hsaid =>
          rw [h] at hsaid
          cases hsaid

/-- Nothing wakes a consumer that has finished. -/
theorem step_of_finished (h : c.phase = .finished) (m : Moment) (signal : Signal) :
    c.step m signal = (c, []) := by
  simp only [step, h]

end Consumer

/-! ## Sessions -/

/-- A consumer, and the change that its triggers refused in the session under way. -/
structure Watched where
  consumer : Consumer
  refused : Option Change := none

namespace Watched

variable {w : Watched} {m : Moment} {signal : Signal}

def step (w : Watched) (m : Moment) (signal : Signal) : Watched :=
  { consumer := (w.consumer.step m signal).1
    refused :=
      if w.consumer.begins signal then none else (w.consumer.refuses? signal).or w.refused }

def run (w : Watched) (events : List (Moment × Signal)) : Watched :=
  events.foldl (fun w e => w.step e.1 e.2) w

theorem run_append_singleton (w : Watched) (events : List (Moment × Signal))
    (e : Moment × Signal) : w.run (events ++ [e]) = (w.run events).step e.1 e.2 := by
  simp [run]

/-- The health that an operator gets to know on a signal. -/
def published? (w : Watched) (m : Moment) (signal : Signal) : Option StreamHealth :=
  Consumer.published? (w.consumer.step m signal)

/-- What a session knows of the change that its triggers refused. -/
inductive Sound (w : Watched) : Prop where
  | outside (h : w.consumer.phase.inSession = false)
  | calm (hphase : ∀ p f, w.consumer.phase ≠ .committing p (.fail f)) (hrefused : w.refused = none)
      (hstalled : w.consumer.stalledAt = none)
  /-- A fault waits for the last commit. -/
  | pending {p : Proposal} {f : StreamFault} (hphase : w.consumer.phase = .committing p (.fail f))
      (hblames : Blames w.consumer.pipeline w.refused f)
      (hstalled : w.consumer.stalledAt = w.refused.map Change.seq)

theorem Sound.stalledAt (h : w.Sound) (hin : w.consumer.phase.inSession = true) :
    w.consumer.stalledAt = w.refused.map Change.seq := by
  cases h with
  | outside hout =>
      rw [hin] at hout
      cases hout
  | calm _ hrefused hstalled => rw [hstalled, hrefused]; rfl
  | pending _ _ hstalled => exact hstalled

theorem Sound.refused_eq_none (h : w.Sound) (hin : w.consumer.phase.inSession = true)
    (hcalm : ∀ p f, w.consumer.phase ≠ .committing p (.fail f)) : w.refused = none := by
  cases h with
  | outside hout =>
      rw [hin] at hout
      cases hout
  | calm _ hrefused _ => exact hrefused
  | pending hphase _ _ => exact absurd hphase (hcalm _ _)

/-- What a session is to end with is blamed on what was refused in it. -/
theorem Sound.blames (h : w.Sound) (hin : w.consumer.phase.inSession = true) {f : StreamFault}
    (hcauses : w.consumer.Causes signal f) :
    Blames w.consumer.pipeline ((w.consumer.refuses? signal).or w.refused) f := by
  cases hcauses with
  | pending hphase =>
      have hnone : w.consumer.refuses? signal = none := by simp [Consumer.refuses?, hphase]
      rw [hnone, Option.none_or]
      cases h with
      | outside hout =>
          rw [hin] at hout
          cases hout
      | calm hcalm _ _ => exact absurd hphase (hcalm _ _)
      | pending hphase' hblames _ =>
          rw [hphase] at hphase'
          cases hphase'
          exact hblames
  | refused hrefuses happly => exact .triggers (by rw [hrefuses]; rfl) happly
  | told hfresh hrefuses hf =>
      refine .feed ?_ hf
      rw [hrefuses, Option.none_or]
      exact h.refused_eq_none hin fun p f => hfresh p _

/-- The number that is kept within a step belongs to the change refused last. -/
theorem Sound.comes (h : w.Sound) (hin : w.consumer.phase.inSession = true) {c' : Consumer}
    (hcomes : w.consumer.Comes signal c') :
    c'.stalledAt = ((w.consumer.refuses? signal).or w.refused).map Change.seq := by
  rw [hcomes.stalledAt, h.stalledAt hin]
  cases w.consumer.refuses? signal <;> rfl

theorem Sound.step (h : w.Sound) (m : Moment) (signal : Signal) : (w.step m signal).Sound := by
  have hfares := w.consumer.step_fares m signal
  unfold Watched.step
  generalize w.consumer.step m signal = s at hfares ⊢
  cases hfares with
  | session hin hgoes =>
      rw [Consumer.begins_of_inSession hin]
      cases hgoes with
      | reacts hfault horigin hcomes hquiet => exact .outside (Consumer.react_inSession _ _ _)
      | stops hfault hcomes hquiet => exact .outside rfl
      | works hfault hcomes hphase hquiet =>
          have hstalled := h.comes hin hcomes
          cases hphase with
          | onward hphase hcommit hrefuses hcalm =>
              have hnone := h.refused_eq_none hin hcalm
              rw [hrefuses, hnone] at hstalled
              exact .calm (fun p f => hcommit p _) (by simp [hrefuses, hnone]) hstalled
          | commits hphase hlast =>
              cases hlast with
              | fault hafter hcauses =>
                  subst hafter
                  refine .pending hphase ?_ hstalled
                  rw [hcomes.keeps.pipeline]
                  exact h.blames hin hcauses
              | calm hafter hrefuses hcalm =>
                  have hnone := h.refused_eq_none hin hcalm
                  rw [hrefuses, hnone] at hstalled
                  refine .calm ?_ (by simp [hrefuses, hnone]) hstalled
                  intro p f hfail
                  rw [hphase] at hfail
                  cases hfail
                  cases hafter
  | opens hphase hsignal =>
      have hin : w.consumer.phase.inSession = true := by rw [hphase]; rfl
      have hnone := h.refused_eq_none hin (by simp [hphase])
      have hrefuses : w.consumer.refuses? signal = none := by simp [Consumer.refuses?, hphase]
      have hstalled := h.stalledAt hin
      rw [hnone] at hstalled
      exact .calm (fun p f => ConsumerPhase.noConfusion) (by simp [hrefuses, hnone]) hstalled
  | begins hphase hsignal =>
      exact .calm (fun p f => ConsumerPhase.noConfusion)
        (by simp [Consumer.begins, hphase, hsignal]) rfl
  | idle hbegins hfault hrefuses =>
      rw [Consumer.begins_eq_false hbegins, hrefuses]
      exact h
  | _ => exact .outside rfl

/-! ## Publications -/

theorem Sound.answers (h : w.Sound) (hin : w.consumer.phase.inSession = true) {e : StreamFault}
    (horigin : w.consumer.Origin signal e) {c' : Consumer}
    (hcomes : w.consumer.Comes signal c') :
    Answers w.consumer.pipeline ((w.consumer.refuses? signal).or w.refused) e
      (c'.reaction e m) := by
  have hstalled := h.comes hin hcomes
  cases horigin with
  | store hf =>
      subst hf
      exact Consumer.answers_of_store hstalled _
  | caused hcauses =>
      cases h.blames hin hcauses with
      | triggers hrefused happly => exact Consumer.answers_of_trigger hrefused happly hstalled
      | feed hrefused hf =>
          subst hf
          rw [hrefused] at hstalled
          exact Consumer.answers_of_feed hrefused hstalled _

/-- A consumer before its first session. -/
def new (d : StreamDefinition) (pipeline : Pipeline) (settings : SupervisorSettings) : Watched :=
  { consumer := .new d pipeline settings }

/-- A consumer that mirrors the people, several at a time. -/
def people : Watched :=
  new ⟨"people", .subtree "dc=x", Group.peopleChain⟩
    ⟨"people", [Mirror.trigger { bucket := "people" }]⟩ { consumer := { batch := .testing } }

end Watched

end ChangeRelay
