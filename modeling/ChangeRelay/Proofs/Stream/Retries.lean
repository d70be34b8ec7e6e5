import ChangeRelay.Proofs.Stream.Reactions
import ChangeRelay.Proofs.Stream.Registered

/-!
# Retries and the pauses they end

An operator's retry first looks at the health that a stream shows, and then gives its consumer a
signal. The consumer shows a pause or a backoff first, and then waits for a signal. Between any two
of these steps anything else may happen, and a signal for which nobody waits is kept for the next
wait. So a pause may end for a retry that found another pause or a backoff, but never for one whose
signal was given before another pause than the one it ended.
-/

namespace ChangeRelay

open Consumer (published?)

/-- Whether a retry is of use to a stream that shows this. -/
def StreamHealth.wantsRetry : StreamHealth → Bool
  | .paused _ _ | .backoff _ _ => true
  | _ => false

def StreamHealth.isPause : StreamHealth → Bool
  | .paused _ _ => true
  | _ => false

def StreamHealth.isBackoff : StreamHealth → Bool
  | .backoff _ _ => true
  | _ => false

/-- Whether a consumer waits for a retry, among others. -/
def ConsumerPhase.wantsRetry : ConsumerPhase → Bool
  | .paused | .backingOff _ => true
  | _ => false

instance (phase : ConsumerPhase) : Decidable (phase = .paused) :=
  match phase with
  | .paused => isTrue rfl
  | .starting | .reading | .subscribing _ | .waiting _ | .throttled _ _ | .committing _ _
  | .backingOff _ | .finished => isFalse nofun

theorem ConsumerPhase.wantsRetry_of_inSession {phase : ConsumerPhase}
    (h : phase.inSession = true) : phase.wantsRetry = false := by
  cases phase with
  | paused | backingOff => cases h
  | _ => rfl

/-- A phase shows as the health that goes with it. -/
def ConsumerPhase.ShownBy : ConsumerPhase → StreamHealth → Prop
  | .paused, health => health.isPause = true
  | .backingOff _, health => health.isBackoff = true
  | _, _ => True

/-! ## Waits -/

namespace Consumer

variable {c : Consumer} {m : Moment} {signal : Signal}

/-- What a step of a consumer has to do with a wait for a retry. -/
inductive Waits (c : Consumer) (signal : Signal) (s : ConsumerStep) : Prop where
  | apart (hbefore : c.phase.wantsRetry = false) (hafter : s.1.phase.wantsRetry = false)
      (hresume : s.1.resume = c.resume)
      (hpublished : ∀ health, published? s = some health → health.wantsRetry = false)
  | begins (hbefore : c.phase.wantsRetry = false) (hafter : s.1.phase.wantsRetry = true)
      (hresume : s.1.resume = c.resume.await) (hpublished : published? s = some s.1.health)
      (hshown : s.1.phase.ShownBy s.1.health)
  | lasts (h : s = (c, []))
  /-- It ends for a retry. -/
  | resumes (hsignal : signal = .resumed) (hbefore : c.phase.wantsRetry = true)
      (hafter : s.1.phase.wantsRetry = false) (hresume : s.1.resume = c.resume.take)
      (hpublished : published? s = none)
  /-- A backoff has lasted its time. -/
  | elapses {delay : Duration} (hsignal : signal = .elapsed) (hbefore : c.phase = .backingOff delay)
      (hafter : s.1.phase.wantsRetry = false) (hresume : s.1.resume = c.resume.cancel)
      (hpublished : published? s = none)
  | quits (hsignal : signal = .stop) (hafter : s.1.phase = .finished)

theorem Works.wantsRetry {phase : ConsumerPhase} (h : c.Works signal phase) :
    phase.wantsRetry = false := by
  rcases h.active with rfl | hphase
  · rfl
  · exact ConsumerPhase.wantsRetry_of_inSession hphase

theorem react_waits (hin : c.phase.inSession = true) {c' : Consumer}
    (hresume : c'.resume = c.resume) (e : StreamFault) {readings : List Metrics.Reading}
    (hquiet : Metrics.Quiet readings) :
    c.Waits signal (reporting readings (c'.react e m)) := by
  have hbefore := ConsumerPhase.wantsRetry_of_inSession hin
  have hpublished : published? (reporting readings (c'.react e m)) = some (c'.reaction e m) := by
    rw [published?_reporting hquiet, published?_react]
  cases e with
  | config reason =>
      refine .apart hbefore rfl hresume ?_
      intro health hhealth
      rw [hpublished] at hhealth
      cases hhealth
      rfl
  | transientSource | transientStore =>
      exact .begins hbefore rfl (congrArg Wakeup.await hresume) hpublished rfl
  | _ =>
      refine .begins hbefore rfl (congrArg Wakeup.await hresume) ?_ rfl
      rw [hpublished, health_of_published? hpublished]

theorem step_waits (c : Consumer) (m : Moment) (signal : Signal) :
    c.Waits signal (c.step m signal) := by
  have hfares := c.step_fares m signal
  generalize c.step m signal = s at hfares ⊢
  cases hfares with
  | session hin hgoes =>
      have hbefore := ConsumerPhase.wantsRetry_of_inSession hin
      cases hgoes with
      | reacts hfault horigin hcomes hquiet => exact react_waits hin hcomes.resume _ hquiet
      | works hfault hcomes hphase hquiet =>
          refine .apart hbefore hphase.wantsRetry hcomes.resume ?_
          intro health hhealth
          rw [published?_of_quiet hquiet] at hhealth
          cases hhealth
      | stops hfault hcomes hquiet =>
          refine .apart hbefore rfl hcomes.resume ?_
          simp [published?_reporting hquiet, finishStopped, published?_publish,
            StreamHealth.wantsRetry]
  | opens hphase =>
      refine .apart (by rw [hphase]; rfl) rfl rfl ?_
      simp [published?_publish, StreamHealth.wantsRetry]
  | begins hphase =>
      refine .apart (by rw [hphase]; rfl) rfl rfl ?_
      simp [begin, published?_publish, StreamHealth.wantsRetry]
  | refrains hphase =>
      refine .apart (by rw [hphase]; rfl) rfl rfl ?_
      simp [finishStopped, published?_publish, StreamHealth.wantsRetry]
  | resumes hphase hsignal => exact .resumes hsignal (by rw [hphase]; rfl) rfl rfl rfl
  | hastens hphase hsignal => exact .resumes hsignal (by rw [hphase]; rfl) rfl rfl rfl
  | elapses hphase hsignal => exact .elapses hsignal hphase rfl rfl rfl
  | quits hphase hsignal => exact .quits hsignal rfl
  | idle => exact .lasts rfl

end Consumer

/-! ## Signals -/

/-- A signal that a retry gave. What a stream shows is numbered from the start. -/
structure Nudge where
  /-- What the retry found to be shown. -/
  found : Nat
  /-- What was shown when it gave the signal. -/
  given : Nat
  /-- Nobody waited for it. -/
  spare : Bool
deriving DecidableEq

/-- A consumer and the retries of its stream. -/
structure Attended where
  supervisor : Supervisor
  consumer : Consumer
  /-- What was shown before. -/
  earlier : List StreamHealth := []
  /-- The wait under way has begun to listen for a signal. -/
  listening : Bool := false
  /-- Each retry with the point it has come to, and the number of what it found. -/
  calls : List (Call × Nat) := []
  /-- The retries behind a signal that is kept. -/
  kept : List Nudge := []
  /-- The retries behind a signal given to the wait under way. -/
  woken : List Nudge := []

namespace Attended

/-- What can happen. -/
inductive Event where
  | tell (m : Moment) (signal : Signal)
  | listen
  /-- An operator asks for a retry of a stream. -/
  | ask (id : String)
  /-- A retry goes one step on. -/
  | advance (i : Nat) (scene : Scene)

/-- The number of what is shown. -/
def number (w : Attended) : Nat := w.earlier.length

def shown (w : Attended) (i : Nat) : Option StreamHealth := (w.earlier ++ [w.consumer.health])[i]?

/-- Whether a consumer can be told a signal: a wait listens before anything else, and ends for a
retry only after one. -/
def canTell (w : Attended) (signal : Signal) : Bool :=
  (!w.consumer.phase.wantsRetry || w.listening) &&
    match signal with
    | .resumed => w.consumer.resume.ready
    | _ => true

/-- A step of the consumer. -/
def follow (w : Attended) (s : ConsumerStep) : Attended :=
  { w with
    consumer := s.1
    earlier := if (published? s).isSome then w.earlier ++ [w.consumer.health] else w.earlier }

/-- A signal that comes to the consumer. What it begins to wait for it does not listen for yet; a
signal given to a wait that ends otherwise is kept. -/
def tell (w : Attended) (m : Moment) (signal : Signal) : Attended :=
  let s := w.consumer.step m signal
  match w.consumer.phase.wantsRetry, s.1.phase.wantsRetry, signal with
  | false, true, _ =>
    { w.follow s with consumer := { s.1 with resume := w.consumer.resume }, listening := false }
  | true, false, .resumed => { w.follow s with listening := false, woken := [] }
  | true, false, _ =>
    { w.follow s with listening := false, kept := w.kept ++ w.woken, woken := [] }
  | _, _, _ => w.follow s

/-- A wait begins to listen, and takes a signal that was kept. -/
def listen (w : Attended) : Attended :=
  if w.consumer.phase.wantsRetry && !w.listening then
    { w with
      consumer := { w.consumer with resume := w.consumer.resume.await }
      listening := true
      woken := w.kept
      kept := [] }
  else w

/-- A retry gives its signal. -/
def nudge (w : Attended) (found : Nat) : Attended :=
  let consumer := { w.consumer with resume := w.consumer.resume.notify }
  match w.consumer.resume.waiter with
  | .waiting => { w with consumer, woken := w.woken ++ [⟨found, w.number, false⟩] }
  | _ => { w with consumer, kept := w.kept ++ [⟨found, w.number, true⟩] }

/-- What a retry has found after a step. -/
def foundBy (w : Attended) (found : Nat) : Call → Nat
  | .retry _ => w.number
  | _ => found

/-- A step of a retry. -/
def advance (w : Attended) (i : Nat) (scene : Scene) : Attended :=
  match w.calls[i]? with
  | none => w
  | some (call, found) =>
    match w.supervisor.advance { scene with health := fun _ => w.consumer.health } call with
    | none => w
    | some a =>
      let w' := { w with calls := w.calls.set i (a.call, w.foundBy found call) }
      match a.errand with
      | .wake _ => w'.nudge found
      | _ => w'

def step (w : Attended) : Event → Attended
  | .tell m signal => if w.canTell signal then w.tell m signal else w
  | .listen => w.listen
  | .ask id => { w with calls := w.calls ++ [(.retry id, 0)] }
  | .advance i scene => w.advance i scene

def run (w : Attended) (events : List Event) : Attended := events.foldl step w

theorem run_append_singleton (w : Attended) (events : List Event) (e : Event) :
    w.run (events ++ [e]) = (w.run events).step e := by
  simp [run]

variable {w w' : Attended} {m : Moment} {signal : Signal} {g : Nudge}

/-- A wait that listens at once is the consumer's own. -/
theorem listen_tell (hbefore : w.consumer.phase.wantsRetry = false)
    (hafter : (w.consumer.step m signal).1.phase.wantsRetry = true) :
    (w.tell m signal).listen.consumer = (w.consumer.step m signal).1 := by
  cases w.consumer.step_waits m signal with
  | begins _ _ hresume =>
      simp only [tell, hbefore, hafter, listen, Bool.not_false, Bool.and_self, if_true]
      rw [← hresume]
  | apart _ hnot => simp [hafter] at hnot
  | lasts h => simp [h, hbefore] at hafter
  | resumes _ _ hnot => simp [hafter] at hnot
  | elapses _ _ hnot => simp [hafter] at hnot
  | quits _ hfinished => simp [hfinished, ConsumerPhase.wantsRetry] at hafter

/-! ## Numbers -/

theorem shown_number (w : Attended) : w.shown w.number = some w.consumer.health := by
  simp [shown, number]

theorem le_number {i : Nat} {health : StreamHealth} (h : w.shown i = some health) :
    i ≤ w.number := by
  obtain ⟨hlt, -⟩ := List.getElem?_eq_some_iff.1 h
  simpa [number, Nat.lt_succ_iff] using hlt

/-- What has been shown stays so. -/
structure Extends (w w' : Attended) : Prop where
  number : w.number ≤ w'.number
  shown : ∀ i ≤ w.number, w'.shown i = w.shown i

theorem extends_of_eq (hearlier : w'.earlier = w.earlier)
    (hhealth : w'.consumer.health = w.consumer.health) :
    w.Extends w' ∧ w'.number = w.number := by
  have hnumber : w'.number = w.number := congrArg List.length hearlier
  refine ⟨⟨hnumber.ge, fun i _ => ?_⟩, hnumber⟩
  rw [shown, shown, hearlier, hhealth]

theorem extends_of_append (hearlier : w'.earlier = w.earlier ++ [w.consumer.health]) :
    w.Extends w' ∧ w'.number = w.number + 1 := by
  have hnumber : w'.number = w.number + 1 := by simp [number, hearlier]
  refine ⟨⟨by omega, fun i hi => ?_⟩, hnumber⟩
  rw [shown, shown, hearlier, List.getElem?_append_left]
  simpa [number, Nat.lt_succ_iff] using hi

/-! ## Standing of the signals -/

/-- A retry that found a wait gave this signal, and of the pauses that have been shown since there
is at most the one that shows now. -/
structure Fresh (w : Attended) (g : Nudge) (last : Prop) : Prop where
  found : ∃ health, w.shown g.found = some health ∧ health.wantsRetry = true
  order : g.found ≤ g.given
  bound : g.given ≤ w.number
  clear : ∀ j health, g.given < j → w.shown j = some health → health.isPause = true →
    j = w.number ∧ last

/-- How a signal can outlast what was shown: nobody waited for it, or a backoff ended without it. -/
def Stray (w : Attended) (g : Nudge) : Prop :=
  g.spare = true ∨ ∃ health, w.shown g.given = some health ∧ health.isBackoff = true

/-- What is known while the consumer works. -/
structure Inv (w : Attended) : Prop where
  shown : w.consumer.phase.ShownBy w.consumer.health
  permit : w.consumer.resume.permit = true ↔ w.kept ≠ []
  ready : w.consumer.resume.ready = true ↔ w.woken ≠ []
  /-- A consumer waits for a signal when it listens, and only then. -/
  heeds : w.consumer.resume.waiter ≠ .nobody →
    w.consumer.phase.wantsRetry = true ∧ w.listening = true
  calls : ∀ p ∈ w.calls, ∀ n, p.1 = .wake n →
    ∃ health, w.shown p.2 = some health ∧ health.wantsRetry = true
  kept : ∀ g ∈ w.kept,
    w.Fresh g (w.consumer.phase = .paused ∧ w.listening = false) ∧ w.Stray g
  woken : ∀ g ∈ w.woken,
    w.Fresh g (w.consumer.phase = .paused) ∧ (g.given < w.number → w.Stray g)

theorem Fresh.extend {last last' : Prop} (h : w.Fresh g last) (hextends : w.Extends w')
    (hone : w'.number ≤ w.number + 1) (hlast : last → w'.number = w.number ∧ last')
    (hnew : w.number < w'.number → w'.consumer.health.isPause = true → last') :
    w'.Fresh g last' where
  found := by
    obtain ⟨health, hshown, hwants⟩ := h.found
    exact ⟨health, (hextends.shown _ (le_number hshown)).trans hshown, hwants⟩
  order := h.order
  bound := h.bound.trans hextends.number
  clear j health hlt hshown hpause := by
    by_cases hle : j ≤ w.number
    · rw [hextends.shown j hle] at hshown
      obtain ⟨rfl, hold⟩ := h.clear j health hlt hshown hpause
      exact ⟨(hlast hold).1.symm, (hlast hold).2⟩
    · have hbound := le_number hshown
      obtain rfl : j = w'.number := by omega
      rw [shown_number] at hshown
      cases hshown
      exact ⟨rfl, hnew (by omega) hpause⟩

theorem Stray.extend (h : w.Stray g) (hextends : w.Extends w') : w'.Stray g := by
  rcases h with hspare | ⟨health, hshown, hbackoff⟩
  · exact .inl hspare
  · exact .inr ⟨health, (hextends.shown _ (le_number hshown)).trans hshown, hbackoff⟩

theorem shownBy_of_not_wantsRetry {phase : ConsumerPhase} (h : phase.wantsRetry = false)
    (health : StreamHealth) : phase.ShownBy health := by
  cases phase with
  | paused | backingOff => cases h
  | _ => trivial

theorem ne_paused (h : w.consumer.phase.wantsRetry = false) : w.consumer.phase ≠ .paused := by
  intro hphase
  rw [hphase] at h
  cases h

/-- Outside of a wait no signal is being listened for. -/
theorem Inv.apart (h : w.Inv) (hbefore : w.consumer.phase.wantsRetry = false) :
    w.consumer.resume.waiter = .nobody ∧ w.woken = [] := by
  have hnobody : w.consumer.resume.waiter = .nobody := by
    by_contra hne
    have hwaits := (h.heeds hne).1
    rw [hbefore] at hwaits
    cases hwaits
  refine ⟨hnobody, ?_⟩
  by_contra hne
  have hready := h.ready.2 hne
  simp [Wakeup.ready, hnobody] at hready

theorem Inv.calls_extend (h : w.Inv) (hextends : w.Extends w') (hcalls : w'.calls = w.calls) :
    ∀ p ∈ w'.calls, ∀ n, p.1 = .wake n →
      ∃ health, w'.shown p.2 = some health ∧ health.wantsRetry = true := by
  rw [hcalls]
  intro p hp n hwake
  obtain ⟨health, hshown, hwants⟩ := h.calls p hp n hwake
  exact ⟨health, (hextends.shown _ (le_number hshown)).trans hshown, hwants⟩

/-! ## Steps of the consumer -/

theorem isPause_of_not_wantsRetry {health : StreamHealth} (h : health.wantsRetry = false) :
    health.isPause = false := by
  cases health with
  | paused seq reason => cases h
  | _ => rfl

/-- A step shows something new or leaves what is shown. -/
theorem follow_extends (w : Attended) (m : Moment) (signal : Signal) :
    w.Extends (w.follow (w.consumer.step m signal)) ∧
      ((published? (w.consumer.step m signal) = none ∧
          (w.follow (w.consumer.step m signal)).number = w.number) ∨
        (published? (w.consumer.step m signal) ≠ none ∧
          (w.follow (w.consumer.step m signal)).number = w.number + 1)) := by
  cases hpublished : published? (w.consumer.step m signal) with
  | none =>
      obtain ⟨hextends, hnumber⟩ : w.Extends (w.follow (w.consumer.step m signal)) ∧
          (w.follow (w.consumer.step m signal)).number = w.number :=
        extends_of_eq (by simp [follow, hpublished]) (Consumer.health_of_unpublished hpublished)
      exact ⟨hextends, .inl ⟨rfl, hnumber⟩⟩
  | some health =>
      obtain ⟨hextends, hnumber⟩ : w.Extends (w.follow (w.consumer.step m signal)) ∧
          (w.follow (w.consumer.step m signal)).number = w.number + 1 :=
        extends_of_append (by simp [follow, hpublished])
      exact ⟨hextends, .inr ⟨by simp, hnumber⟩⟩

/-- A consumer that has not to do with a wait. -/
theorem Inv.follow (h : w.Inv) (hbefore : w.consumer.phase.wantsRetry = false)
    (hafter : (w.consumer.step m signal).1.phase.wantsRetry = false)
    (hresume : (w.consumer.step m signal).1.resume = w.consumer.resume)
    (hpublished : ∀ health, published? (w.consumer.step m signal) = some health →
      health.wantsRetry = false) : (w.follow (w.consumer.step m signal)).Inv := by
  obtain ⟨hnobody, hnone⟩ := h.apart hbefore
  obtain ⟨hextends, hnumber⟩ := w.follow_extends m signal
  have hresume' : (w.follow (w.consumer.step m signal)).consumer.resume = w.consumer.resume :=
    hresume
  constructor
  · exact shownBy_of_not_wantsRetry hafter _
  · rw [hresume']
    exact h.permit
  · rw [hresume']
    exact h.ready
  · rw [hresume', hnobody]
    exact fun hne => absurd rfl hne
  · exact h.calls_extend hextends rfl
  · intro g hg
    obtain ⟨hfresh, hstray⟩ := h.kept g hg
    refine ⟨hfresh.extend hextends (by omega) (fun hlast => absurd hlast.1 (ne_paused hbefore)) ?_,
      hstray.extend hextends⟩
    intro hlt hpause
    cases hhealth : published? (w.consumer.step m signal) with
    | none => simp [hhealth] at hnumber; omega
    | some health =>
        have hshows := Consumer.health_of_published? hhealth
        have hnot := isPause_of_not_wantsRetry (hpublished health hhealth)
        simp only [Attended.follow, hshows, hnot] at hpause
        cases hpause
  · intro g hg
    have hmem : g ∈ w.woken := hg
    rw [hnone] at hmem
    cases hmem

/-- The phase that a pause shows. -/
theorem paused_of_isPause {phase : ConsumerPhase} {health : StreamHealth}
    (hwants : phase.wantsRetry = true) (hshown : phase.ShownBy health)
    (hpause : health.isPause = true) : phase = .paused := by
  cases phase with
  | paused => rfl
  | backingOff delay =>
      have hbackoff : health.isBackoff = true := hshown
      cases health with
      | paused seq reason => cases hbackoff
      | _ => cases hpause
  | _ => cases hwants

/-- A wait begins, and does not listen yet. -/
theorem Inv.begin (h : w.Inv) {c : Consumer} (hbefore : w.consumer.phase.wantsRetry = false)
    (hafter : c.phase.wantsRetry = true) (hshown : c.phase.ShownBy c.health)
    (hconsumer : w'.consumer = { c with resume := w.consumer.resume })
    (hw' : w' = { w with
      consumer := w'.consumer, earlier := w.earlier ++ [w.consumer.health], listening := false }) :
    w'.Inv := by
  obtain ⟨hnobody, hnone⟩ := h.apart hbefore
  obtain ⟨hextends, hnumber⟩ : w.Extends w' ∧ w'.number = w.number + 1 :=
    extends_of_append (by rw [hw'])
  have hphase : w'.consumer.phase = c.phase := by rw [hconsumer]
  have hhealth : w'.consumer.health = c.health := by rw [hconsumer]
  have hresume : w'.consumer.resume = w.consumer.resume := by rw [hconsumer]
  have hkept : w'.kept = w.kept := by rw [hw']
  have hwoken : w'.woken = w.woken := by rw [hw']
  have hlistening : w'.listening = false := by rw [hw']
  constructor
  · rw [hphase, hhealth]
    exact hshown
  · rw [hresume, hkept]
    exact h.permit
  · rw [hresume, hwoken]
    exact h.ready
  · rw [hresume, hnobody]
    exact fun hne => absurd rfl hne
  · exact h.calls_extend hextends (by rw [hw'])
  · rw [hkept]
    intro g hg
    obtain ⟨hfresh, hstray⟩ := h.kept g hg
    refine ⟨hfresh.extend hextends (by omega)
      (fun hlast => absurd hlast.1 (ne_paused hbefore)) ?_, hstray.extend hextends⟩
    intro _ hpause
    rw [hhealth] at hpause
    rw [hphase]
    exact ⟨paused_of_isPause hafter hshown hpause, hlistening⟩
  · rw [hwoken, hnone]
    nofun

/-- Of what is kept during a wait that listens nothing is meant for this wait. -/
theorem Inv.kept_of_listening (h : w.Inv) (hlistening : w.listening = true)
    (hextends : w.Extends w') (hnumber : w'.number = w.number) (hg : g ∈ w.kept) {last : Prop} :
    w'.Fresh g last ∧ w'.Stray g := by
  obtain ⟨hfresh, hstray⟩ := h.kept g hg
  refine ⟨hfresh.extend hextends (by omega) ?_ (by omega), hstray.extend hextends⟩
  rintro ⟨-, hnot⟩
  rw [hlistening] at hnot
  cases hnot

/-- A wait ends for a retry. -/
theorem Inv.resume (h : w.Inv) (hlistening : w.listening = true)
    (hafter : w'.consumer.phase.wantsRetry = false)
    (hresume : w'.consumer.resume = w.consumer.resume.take)
    (hhealth : w'.consumer.health = w.consumer.health)
    (hw' : w' = { w with consumer := w'.consumer, listening := false, woken := [] }) :
    w'.Inv := by
  obtain ⟨hextends, hnumber⟩ : w.Extends w' ∧ w'.number = w.number :=
    extends_of_eq (by rw [hw']) hhealth
  have hkept : w'.kept = w.kept := by rw [hw']
  have hwoken : w'.woken = [] := by rw [hw']
  constructor
  · exact shownBy_of_not_wantsRetry hafter _
  · rw [hresume, hkept]
    exact h.permit
  · rw [hresume, hwoken]
    simp [Wakeup.take, Wakeup.ready]
  · rw [hresume]
    exact fun hne => absurd rfl hne
  · exact h.calls_extend hextends (by rw [hw'])
  · rw [hkept]
    exact fun g hg => h.kept_of_listening hlistening hextends hnumber hg
  · rw [hwoken]
    nofun

/-- A backoff ends for its time; a signal that was given to it is kept. -/
theorem Inv.elapse (h : w.Inv) (hlistening : w.listening = true) {delay : Duration}
    (hbefore : w.consumer.phase = .backingOff delay)
    (hafter : w'.consumer.phase.wantsRetry = false)
    (hresume : w'.consumer.resume = w.consumer.resume.cancel)
    (hhealth : w'.consumer.health = w.consumer.health)
    (hw' : w' = { w with
      consumer := w'.consumer, listening := false, kept := w.kept ++ w.woken, woken := [] }) :
    w'.Inv := by
  obtain ⟨hextends, hnumber⟩ : w.Extends w' ∧ w'.number = w.number :=
    extends_of_eq (by rw [hw']) hhealth
  have hkept : w'.kept = w.kept ++ w.woken := by rw [hw']
  have hwoken : w'.woken = [] := by rw [hw']
  constructor
  · exact shownBy_of_not_wantsRetry hafter _
  · rw [hresume, hkept]
    simp only [Wakeup.cancel, Bool.or_eq_true, h.permit, h.ready]
    cases w.kept <;> simp
  · rw [hresume, hwoken]
    simp [Wakeup.cancel, Wakeup.ready]
  · rw [hresume]
    exact fun hne => absurd rfl hne
  · exact h.calls_extend hextends (by rw [hw'])
  · rw [hkept]
    intro g hg
    rcases List.mem_append.1 hg with hg | hg
    · exact h.kept_of_listening hlistening hextends hnumber hg
    · obtain ⟨hfresh, hstray⟩ := h.woken g hg
      refine ⟨hfresh.extend hextends (by omega) (by simp [hbefore]) (by omega), ?_⟩
      refine Stray.extend ?_ hextends
      rcases Nat.lt_or_ge g.given w.number with hlt | hge
      · exact hstray hlt
      · -- it was given to the backoff that ends
        have hgiven : g.given = w.number := Nat.le_antisymm hfresh.bound hge
        have hshown := h.shown
        rw [hbefore] at hshown
        exact .inr ⟨_, hgiven ▸ w.shown_number, hshown⟩
  · rw [hwoken]
    nofun

theorem Inv.tell (h : w.Inv) (hcan : w.canTell signal = true) (m : Moment) :
    (w.tell m signal).consumer.phase = .finished ∨ (w.tell m signal).Inv := by
  have hlistens : w.consumer.phase.wantsRetry = true → w.listening = true := by
    intro hwants
    unfold canTell at hcan
    simp only [hwants, Bool.not_true, Bool.false_or, Bool.and_eq_true] at hcan
    exact hcan.1
  cases w.consumer.step_waits m signal with
  | apart hbefore hafter hresume hpublished =>
      have htell : w.tell m signal = w.follow (w.consumer.step m signal) := by
        simp only [Attended.tell, hbefore, hafter]
      rw [htell]
      exact .inr (h.follow hbefore hafter hresume hpublished)
  | begins hbefore hafter hresume hpublished hshown =>
      refine .inr (h.begin (c := (w.consumer.step m signal).1) hbefore hafter hshown ?_ ?_) <;>
        simp [Attended.tell, hbefore, hafter, Attended.follow, hpublished]
  | lasts hstep =>
      have htell : w.tell m signal = w := by
        simp only [Attended.tell, hstep]
        cases w.consumer.phase.wantsRetry <;> rfl
      rw [htell]
      exact .inr h
  | resumes hsignal hbefore hafter hresume hpublished =>
      subst hsignal
      have hhealth := Consumer.health_of_unpublished hpublished
      refine .inr (h.resume (hlistens hbefore) ?_ ?_ ?_ ?_) <;>
        simp [Attended.tell, hbefore, hafter, Attended.follow, hpublished, hresume, hhealth]
  | elapses hsignal hbefore hafter hresume hpublished =>
      subst hsignal
      have hwants : w.consumer.phase.wantsRetry = true := by rw [hbefore]; rfl
      have hhealth := Consumer.health_of_unpublished hpublished
      refine .inr (h.elapse (hlistens hwants) hbefore ?_ ?_ ?_ ?_) <;>
        simp [Attended.tell, hwants, hafter, Attended.follow, hpublished, hresume, hhealth]
  | quits hsignal hafter =>
      subst hsignal
      refine .inl ?_
      unfold Attended.tell
      cases hwants : w.consumer.phase.wantsRetry with
      | false | true =>
          simp [hafter, ConsumerPhase.wantsRetry, Attended.follow]

/-! ## Steps of the retries -/

/-- A signal that is given now. -/
theorem fresh_now {found : Nat}
    (hfound : ∃ health, w.shown found = some health ∧ health.wantsRetry = true) (spare : Bool)
    (last : Prop) : w.Fresh ⟨found, w.number, spare⟩ last := by
  refine ⟨hfound, ?_, Nat.le_refl _, ?_⟩
  · obtain ⟨health, hshown, -⟩ := hfound
    exact le_number hshown
  · intro j health hlt hshown
    exact absurd (le_number hshown) (Nat.not_le.2 hlt)

/-- Nothing new is shown. -/
theorem Fresh.same {last last' : Prop} (h : w.Fresh g last) (hearlier : w'.earlier = w.earlier)
    (hhealth : w'.consumer.health = w.consumer.health) (hlast : last → last') :
    w'.Fresh g last' := by
  obtain ⟨hextends, hnumber⟩ := extends_of_eq hearlier hhealth
  exact h.extend hextends (by omega) (fun hold => ⟨hnumber, hlast hold⟩) (by omega)

theorem Stray.same (h : w.Stray g) (hearlier : w'.earlier = w.earlier)
    (hhealth : w'.consumer.health = w.consumer.health) : w'.Stray g :=
  h.extend (extends_of_eq hearlier hhealth).1

theorem Inv.listen (h : w.Inv) : w.listen.Inv := by
  unfold Attended.listen
  split
  · rename_i hbegins
    simp only [Bool.and_eq_true, Bool.not_eq_true'] at hbegins
    obtain ⟨hwants, hnot⟩ := hbegins
    have hresume : w.consumer.resume.await.permit = false ∧
        w.consumer.resume.await.ready = w.consumer.resume.permit := by
      unfold Wakeup.await
      cases w.consumer.resume.permit <;> exact ⟨rfl, rfl⟩
    constructor
    · exact h.shown
    · simp [hresume.1]
    · rw [hresume.2]
      exact h.permit
    · exact fun _ => ⟨hwants, rfl⟩
    · exact h.calls
    · nofun
    · intro g hg
      obtain ⟨hfresh, hstray⟩ := h.kept g hg
      exact ⟨hfresh.same rfl rfl And.left, fun _ => hstray.same rfl rfl⟩
  · exact h

theorem Inv.nudge (h : w.Inv) {found : Nat}
    (hfound : ∃ health, w.shown found = some health ∧ health.wantsRetry = true) :
    (w.nudge found).Inv := by
  have hkept := fun g hg => (h.kept g hg).2
  have hwoken := fun g hg => (h.woken g hg).2
  unfold Attended.nudge
  split
  · -- the consumer waits for it
    rename_i hwaiter
    have hnotify : w.consumer.resume.notify = { w.consumer.resume with waiter := .signalled } := by
      simp only [Wakeup.notify, hwaiter]
    constructor
    · exact h.shown
    · rw [hnotify]
      exact h.permit
    · simp [hnotify, Wakeup.ready]
    · exact fun _ => h.heeds (by simp [hwaiter])
    · exact h.calls
    · intro g hg
      exact ⟨(h.kept g hg).1.same rfl rfl id, (hkept g hg).same rfl rfl⟩
    · intro g hg
      rcases List.mem_append.1 hg with hg | hg
      · exact ⟨(h.woken g hg).1.same rfl rfl id, fun hlt => (hwoken g hg hlt).same rfl rfl⟩
      · cases List.mem_singleton.1 hg
        exact ⟨(fresh_now hfound _ False).same rfl rfl False.elim,
          fun hlt => absurd hlt (Nat.lt_irrefl _)⟩
  · rename_i hwaiter
    have hnotify : w.consumer.resume.notify = { w.consumer.resume with permit := true } := by
      unfold Wakeup.notify
      split
      · rename_i hwaiting
        exact absurd hwaiting hwaiter
      · rfl
    constructor
    · exact h.shown
    · simp [hnotify]
    · rw [hnotify]
      exact h.ready
    · rw [hnotify]
      exact h.heeds
    · exact h.calls
    · intro g hg
      rcases List.mem_append.1 hg with hg | hg
      · exact ⟨(h.kept g hg).1.same rfl rfl id, (hkept g hg).same rfl rfl⟩
      · cases List.mem_singleton.1 hg
        exact ⟨(fresh_now hfound _ False).same rfl rfl False.elim, .inl rfl⟩
    · intro g hg
      exact ⟨(h.woken g hg).1.same rfl rfl id, fun hlt => (hwoken g hg hlt).same rfl rfl⟩

/-- A retry goes on to give its signal only if it found a wait. -/
theorem wantsRetry_of_advance {s : Supervisor} {scene : Scene} {call : Call} {a : Advance} {n : Nat}
    (h : s.advance scene call = some a) (hcall : a.call = .wake n) :
    (∃ id, call = .retry id) ∧ ∃ source, (scene.health source).wantsRetry = true := by
  cases Supervisor.advances_of_advance h with
  | @retries id n =>
      refine ⟨⟨id, rfl⟩, ?_⟩
      simp only [Supervisor.advance] at h
      split at h
      · rename_i htarget
        unfold Supervisor.retryTarget at htarget
        split at htarget
        · cases htarget
        · rename_i entry hentry
          refine ⟨entry.source, ?_⟩
          split at htarget
          · simp_all [StreamHealth.wantsRetry]
          · simp_all [StreamHealth.wantsRetry]
          · cases htarget
      · cases h
  | @removes id entry =>
      unfold Supervisor.nextOf at hcall
      split at hcall <;> cases hcall
  | _ => cases hcall

theorem wake_of_errand {s : Supervisor} {scene : Scene} {call : Call} {a : Advance} {n : Nat}
    (h : s.advance scene call = some a) (herrand : a.errand = .wake n) : call = .wake n := by
  cases Supervisor.advances_of_advance h with
  | wakes =>
      cases herrand
      rfl
  | _ => cases herrand

theorem Inv.setCalls (h : w.Inv) {calls : List (Call × Nat)}
    (hcalls : ∀ p ∈ calls, ∀ n, p.1 = .wake n →
      ∃ health, w.shown p.2 = some health ∧ health.wantsRetry = true) :
    ({ w with calls } : Attended).Inv where
  shown := h.shown
  permit := h.permit
  ready := h.ready
  heeds := h.heeds
  calls := hcalls
  kept g hg := ⟨(h.kept g hg).1.same rfl rfl id, (h.kept g hg).2.same rfl rfl⟩
  woken g hg :=
    ⟨(h.woken g hg).1.same rfl rfl id, fun hlt => ((h.woken g hg).2 hlt).same rfl rfl⟩

theorem Inv.advance (h : w.Inv) (i : Nat) (scene : Scene) : (w.advance i scene).Inv := by
  unfold Attended.advance
  split
  · exact h
  · rename_i call found hcall
    have hmem : (call, found) ∈ w.calls := List.mem_of_getElem? hcall
    split
    · exact h
    · rename_i a hadvance
      have hset : ({ w with
          calls := w.calls.set i (a.call, w.foundBy found call) } : Attended).Inv := by
        refine h.setCalls ?_
        intro p hp n hwake
        rcases List.mem_or_eq_of_mem_set hp with hp | rfl
        · exact h.calls p hp n hwake
        · -- it has found what shows now
          obtain ⟨⟨id, rfl⟩, source, hwants⟩ := wantsRetry_of_advance hadvance hwake
          exact ⟨_, w.shown_number, hwants⟩
      split
      · rename_i n herrand
        obtain rfl := wake_of_errand hadvance herrand
        exact hset.nudge (h.calls _ hmem n rfl)
      · exact hset

/-! ## Runs -/

theorem phase_nudge (w : Attended) (found : Nat) :
    (w.nudge found).consumer.phase = w.consumer.phase := by
  unfold Attended.nudge
  split <;> rfl

theorem phase_advance (w : Attended) (i : Nat) (scene : Scene) :
    (w.advance i scene).consumer.phase = w.consumer.phase := by
  unfold Attended.advance
  split
  · rfl
  · split
    · rfl
    · split
      · exact phase_nudge _ _
      · rfl

theorem phase_listen (w : Attended) : w.listen.consumer.phase = w.consumer.phase := by
  unfold Attended.listen
  split <;> rfl

theorem tell_of_finished (h : w.consumer.phase = .finished) (m : Moment) (signal : Signal) :
    w.tell m signal = w := by
  simp only [Attended.tell, Consumer.step_of_finished h, h, ConsumerPhase.wantsRetry]
  rfl

/-- The invariant, which a consumer that has finished has no need of. -/
theorem inv_step (h : w.consumer.phase = .finished ∨ w.Inv) (e : Event) :
    (w.step e).consumer.phase = .finished ∨ (w.step e).Inv := by
  cases e with
  | tell m signal =>
      simp only [Attended.step]
      split
      · rename_i hcan
        rcases h with hfinished | h
        · rw [tell_of_finished hfinished]
          exact .inl hfinished
        · exact h.tell hcan m
      · exact h
  | listen => exact h.imp (fun hfinished => w.phase_listen.trans hfinished) Inv.listen
  | ask id =>
      refine h.imp_right fun h => h.setCalls ?_
      intro p hp n hwake
      rcases List.mem_append.1 hp with hp | hp
      · exact h.calls p hp n hwake
      · cases List.mem_singleton.1 hp
        cases hwake
  | advance i scene =>
      exact h.imp (fun hfinished => (w.phase_advance i scene).trans hfinished)
        fun h => h.advance i scene

/-- A consumer before its first session, under a supervisor that keeps it as it is. -/
def new (supervisor : Supervisor) (d : StreamDefinition) (pipeline : Pipeline)
    (settings : SupervisorSettings) : Attended :=
  { supervisor, consumer := .new d pipeline settings }

theorem inv_run (supervisor : Supervisor) (d : StreamDefinition) (pipeline : Pipeline)
    (settings : SupervisorSettings) (events : List Event) :
    ((new supervisor d pipeline settings).run events).consumer.phase = .finished ∨
      ((new supervisor d pipeline settings).run events).Inv := by
  induction events using List.reverseRecOn with
  | nil =>
      refine .inr ⟨trivial, ?_, ?_, ?_, ?_, ?_, ?_⟩ <;>
        simp [run, new, Consumer.new, Wakeup.ready]
  | append_singleton events e ih =>
      rw [run_append_singleton]
      exact inv_step ih e

/-- A retry whose signal may end the pause that shows now. -/
structure Reaches (w : Attended) (g : Nudge) : Prop where
  found : ∃ health, w.shown g.found = some health ∧ health.wantsRetry = true
  order : g.found ≤ g.given
  bound : g.given ≤ w.number
  /-- Between the signal and the pause no other pause was shown. -/
  next : ∀ j health, g.given < j → j < w.number → w.shown j = some health → health.isPause = false
  stray : g.given < w.number → w.Stray g

theorem Inv.reaches (h : w.Inv) (hg : g ∈ w.woken) : w.Reaches g := by
  obtain ⟨hfresh, hstray⟩ := h.woken g hg
  refine ⟨hfresh.found, hfresh.order, hfresh.bound, ?_, hstray⟩
  intro j health hgiven hlt hshown
  by_contra hpause
  have hlast := hfresh.clear j health hgiven hshown (by simpa using hpause)
  exact absurd hlast.1 hlt.ne

/-- A consumer that halts shows it. -/
theorem Inv.shown_paused (h : w.Inv) (hpaused : w.consumer.phase = .paused) :
    ∃ seq reason, w.shown w.number = some (.paused seq reason) := by
  have hshown := h.shown
  rw [hpaused] at hshown
  cases hhealth : w.consumer.health with
  | paused seq reason => exact ⟨seq, reason, hhealth ▸ w.shown_number⟩
  | _ =>
      rw [hhealth] at hshown
      cases hshown

/-- A pause is left for a shutdown or for retries that gave a signal. Each of them found a pause or
a backoff, and found this pause unless something was shown between its look and its signal, or its
signal was left over. A signal that is left over is spent on the next pause at the latest. -/
theorem pause_left (supervisor : Supervisor) (d : StreamDefinition) (pipeline : Pipeline)
    (settings : SupervisorSettings) (events : List Event) {w : Attended}
    (hrun : (new supervisor d pipeline settings).run events = w) {e : Event}
    (hpaused : w.consumer.phase = .paused) (hleft : (w.step e).consumer.phase ≠ .paused) :
    (∃ seq reason, w.shown w.number = some (.paused seq reason)) ∧
      ((∃ m, e = .tell m .stop ∧ (w.step e).consumer.phase = .finished) ∨
        (∃ m, e = .tell m .resumed) ∧ w.woken ≠ [] ∧ ∀ g ∈ w.woken, w.Reaches g) := by
  have hinv : w.Inv := by
    rcases hrun ▸ inv_run supervisor d pipeline settings events with hfinished | h
    · rw [hpaused] at hfinished
      cases hfinished
    · exact h
  refine ⟨hinv.shown_paused hpaused, ?_⟩
  cases e with
  | listen => exact absurd (w.phase_listen.trans hpaused) hleft
  | ask id => exact absurd hpaused hleft
  | advance i scene => exact absurd ((w.phase_advance i scene).trans hpaused) hleft
  | tell m signal =>
      simp only [Attended.step] at hleft ⊢
      split at hleft
      · rename_i hcan
        rw [if_pos hcan]
        cases signal with
        | stop =>
            refine .inl ⟨m, rfl, ?_⟩
            simp [Attended.tell, Consumer.step, hpaused, ConsumerPhase.wantsRetry,
              Consumer.finishStopped, Consumer.publish, Attended.follow]
        | resumed =>
            refine .inr ⟨⟨m, rfl⟩, hinv.ready.1 ?_, fun g hg => hinv.reaches hg⟩
            unfold canTell at hcan
            exact (Bool.and_eq_true _ _ ▸ hcan).2
        | _ =>
            refine absurd ?_ hleft
            simp [Attended.tell, Consumer.step, hpaused, ConsumerPhase.wantsRetry,
              Attended.follow]
      · exact absurd hpaused hleft

/-- The supervisor of one stream, which runs. -/
def attending : Supervisor :=
  { streams := [("people", { source := .worker 0, running := some 0 })] }

/-- A consumer of the people halts at a change without attributes, is retried twice at once, and
halts there again. -/
def retriedTwice : List Event :=
  let m : Moment := { now := { nanos := 0 } }
  let session : List Event := [.tell m (.start false), .tell m (.read (.ok none)),
    .tell m (.subscribed (.ok ())),
    .tell m (.item (.ok (some (.event ⟨2, .add, "cn=ben,dc=x", [], []⟩)))), .listen]
  let retry (i : Nat) : List Event := [.ask "people", .advance i Supervision.impatient,
    .advance i Supervision.impatient]
  session ++ retry 0 ++ retry 1 ++ [.tell m .resumed] ++ session

def retried : Attended :=
  (new attending ⟨"people", .subtree "dc=x", Group.peopleChain⟩
    ⟨"people", [Mirror.trigger { bucket := "people" }]⟩ {}).run retriedTwice

/-- The second retry's signal is left over, and ends the second pause. -/
theorem pause_left_twice :
    let m : Moment := { now := { nanos := 0 } }
    (retried.step (.tell m .resumed)).consumer.phase ≠ .paused ∧
      retried.woken = [⟨3, 3, true⟩] ∧ retried.Reaches ⟨3, 3, true⟩ ∧
      (retried.shown 3).any StreamHealth.isPause = true ∧ 3 < retried.number ∧
      ∃ seq reason, retried.shown retried.number = some (.paused seq reason) := by
  intro m
  have hwoken : retried.woken = [⟨3, 3, true⟩] := by decide +kernel
  have hleft : (retried.step (.tell m .resumed)).consumer.phase ≠ .paused := by decide +kernel
  obtain ⟨hshown, hleaves⟩ := pause_left _ _ _ _ retriedTwice (w := retried) rfl
    (e := .tell m .resumed) (by decide +kernel) hleft
  rcases hleaves with ⟨m', hstop, -⟩ | ⟨-, -, hreaches⟩
  · cases hstop
  · refine ⟨hleft, hwoken, ?_, by decide +kernel, by decide +kernel, hshown⟩
    exact hreaches _ (hwoken ▸ List.mem_singleton_self _)

end Attended

end ChangeRelay
