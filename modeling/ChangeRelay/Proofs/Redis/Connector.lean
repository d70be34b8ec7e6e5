import ChangeRelay.Redis.Connector
import Mathlib.Data.List.Basic

/-!
# What a connector knows of its connection

A connector keeps a state, a connection and a count of failures side by side. Over any calls, and
however the attempts at a connection end, the state says whether there is a connection, a call that
needs one tries until an attempt succeeds or no more are allowed, and the failures are those since
the last success. What is reported on the way is every attempt with its end, and the last state.
-/

namespace ChangeRelay.Redis.Connector

/-- What is done with a connector. A call that may have to connect comes with how each attempt at it
would end; the attempts are numbered from zero. -/
inductive Call where
  | ensure (ends : Nat → Attempt)
  | invalidate

variable {c : Connector} {ends : Nat → Attempt} {last k : Nat}

/-- The most attempts that a call makes. -/
def limit (c : Connector) : Nat := max 1 c.retry.maxAttempts

/-- The outcomes of the first attempts. -/
def outcomes (c : Connector) (ends : Nat → Attempt) (k : Nat) : List (Except String Unit) :=
  (List.range k).map fun i => c.outcome (ends i)

/-- A call that may make all attempts there can be. -/
def call (c : Connector) : Call → Connector
  | .ensure ends => (c.ensure (c.outcomes ends c.limit)).1
  | .invalidate => c.invalidate

def run (c : Connector) (calls : List Call) : Connector := calls.foldl call c

/-- What is reported in a call. -/
def reports (c : Connector) : Call → List Metrics.Reading
  | .ensure ends => c.ensureReadings (c.outcomes ends c.limit)
  | .invalidate => c.invalidateReadings

/-- The index of the first attempt that succeeds, counted from one; the one beyond `most` if none of
the first `most` does. -/
def firstConnected (ends : Nat → Attempt) (most : Nat) : Nat :=
  ((List.range most).map ends).findIdx (· = .connected) + 1

/-- A call makes exactly `n` attempts: after fewer it is not done, after `n` it is, and what further
ones would come to does not matter. -/
structure Makes (c : Connector) (ends : Nat → Attempt) (n : Nat) : Prop where
  undecided : ∀ k < n, (c.ensure (c.outcomes ends k)).2 = none
  decided : (c.ensure (c.outcomes ends n)).2 ≠ none
  settled : ∀ k, n ≤ k → c.ensure (c.outcomes ends k) = c.ensure (c.outcomes ends n)

/-- A call is over with attempt `last`: all before it fail, and it succeeds or is the last one
allowed. -/
structure Concludes (c : Connector) (ends : Nat → Attempt) (last : Nat) : Prop where
  lt_limit : last < c.limit
  failed : ∀ i < last, ends i ≠ .connected
  stops : ends last = .connected ∨ last + 1 = c.limit

/-- What counts for the failures. -/
inductive Incident where
  | connected
  | failed
  | dropped

def Incident.ofAttempt : Attempt → Incident
  | .connected => .connected
  | _ => .failed

/-- Every attempt is reported with its end. -/
def Incident.readings (name : String) : Incident → List Metrics.Reading
  | .connected => Metrics.connection name true
  | .failed => Metrics.connection name false
  | .dropped => []

/-! ## Attempts in a row -/

theorem outcomes_of_lt (c : Connector) (ends : Nat → Attempt) (h : last < k) :
    ∃ rest, c.outcomes ends k = c.outcomes ends last ++ c.outcome (ends last) :: rest := by
  obtain ⟨m, rfl⟩ := Nat.exists_eq_add_of_lt h
  refine ⟨(List.range m).map fun i => c.outcome (ends (last + 1 + i)), ?_⟩
  rw [Nat.add_right_comm]
  simp [outcomes, List.range_add, Function.comp_def]

theorem length_outcomes (c : Connector) (ends : Nat → Attempt) (k : Nat) :
    (c.outcomes ends k).length = k := by
  simp [outcomes]

theorem exists_outcome_eq_error {a : Attempt} (h : a ≠ .connected) (c : Connector) :
    ∃ reason, c.outcome a = .error reason := by
  cases a with
  | connected => exact absurd rfl h
  | refused reason => exact ⟨reason, rfl⟩
  | timedOut => exact ⟨_, rfl⟩

/-- An attempt that fails before the last one allowed is counted and reported, and there will be
another. -/
theorem afterAttempt_of_lt {attempt : Nat} (h : attempt < c.retry.maxAttempts) (reason : String) :
    c.afterAttempt attempt (.error reason) = ({ c with failures := c.failures + 1 }, none) ∧
      c.attemptReadings attempt (.error reason) = Metrics.connection c.name false := by
  simp [attemptReadings, afterAttempt, Nat.not_le.2 h]

/-- Attempts that fail before the last one allowed are counted and reported, and the next is made. -/
theorem attempts_append_of_failed (first : Nat) {failed : List (Except String Unit)}
    (rest : List (Except String Unit)) (hfailed : ∀ o ∈ failed, ∃ reason, o = .error reason)
    (hmore : ∀ i < failed.length, first + i < c.retry.maxAttempts) :
    let c' := { c with failures := c.failures + failed.length }
    c.attempts first (failed ++ rest) = c'.attempts (first + failed.length) rest ∧
      c.attemptsReadings first (failed ++ rest) =
        (List.replicate failed.length Incident.failed).flatMap (Incident.readings c.name) ++
          c'.attemptsReadings (first + failed.length) rest := by
  induction failed generalizing c first with
  | nil => exact ⟨rfl, rfl⟩
  | cons o failed ih =>
    obtain ⟨reason, rfl⟩ := hfailed o List.mem_cons_self
    have hfirst : first < c.retry.maxAttempts := hmore 0 (by simp)
    obtain ⟨hafter, hreport⟩ := afterAttempt_of_lt hfirst reason
    have hmore' : ∀ i < failed.length, first + 1 + i < c.retry.maxAttempts := by
      intro i hi
      have := hmore (i + 1) (by simpa using hi)
      omega
    obtain ⟨hattempts, hreadings⟩ := ih (c := { c with failures := c.failures + 1 }) (first + 1)
      (fun o ho => hfailed o (List.mem_cons_of_mem _ ho)) hmore'
    constructor
    · rw [List.cons_append, attempts, hafter]
      simpa only [List.length_cons, Nat.add_assoc, Nat.add_comm 1] using hattempts
    · rw [List.cons_append, attemptsReadings, hreport, hafter, List.length_cons,
        List.replicate_succ, List.flatMap_cons, List.append_assoc]
      refine congrArg (Metrics.connection c.name false ++ ·) ?_
      simpa only [Nat.add_assoc, Nat.add_comm 1] using hreadings

/-- Before the attempt that it is over with, a call goes on, counts and reports. -/
theorem ensure_outcomes_append (hlive : c.live = false) (h : c.Concludes ends last) (hk : k ≤ last)
    (rest : List (Except String Unit)) :
    let c' := { c with state := .connecting, failures := c.failures + k }
    c.ensure (c.outcomes ends k ++ rest) = c'.attempts (1 + k) rest ∧
      c.ensureReadings (c.outcomes ends k ++ rest) =
        Metrics.connectionState c.name "connecting" ++
          (List.replicate k Incident.failed).flatMap (Incident.readings c.name) ++
          c'.attemptsReadings (1 + k) rest := by
  have hfailed : ∀ o ∈ c.outcomes ends k, ∃ reason, o = .error reason := by
    intro o ho
    obtain ⟨i, hi, rfl⟩ := List.mem_map.1 ho
    exact exists_outcome_eq_error (h.failed i (by rw [List.mem_range] at hi; omega)) c
  have hlimit := h.lt_limit
  rw [limit] at hlimit
  obtain ⟨hattempts, hreadings⟩ :=
    attempts_append_of_failed (c := { c with state := .connecting }) 1 rest hfailed (by
      intro i hi
      rw [length_outcomes] at hi
      simp only
      omega)
  rw [length_outcomes] at hattempts hreadings
  refine ⟨?_, ?_⟩
  · rw [ensure, if_neg (by simp [hlive]), hattempts]
  · rw [ensureReadings, if_neg (by simp [hlive]), List.append_assoc]
    exact congrArg (Metrics.connectionState c.name "connecting" ++ ·) hreadings

/-! ## One call -/

/-- The connector and the answer after attempt number `n` as the last one of a call. -/
def ended (c : Connector) (n : Nat) :
    Except String Unit → Connector × Option (Except ConnectFault Unit)
  | .ok () => ({ c with state := .connected, live := true, failures := 0 }, some (.ok ()))
  | .error reason =>
    ({ c with state := .backoff, failures := c.failures + n },
      some (.error ⟨c.name, s!"Connection failed after {n} attempts: {reason}"⟩))

/-- What is reported of the last attempt of a call. -/
def endReadings (c : Connector) : Except String Unit → List Metrics.Reading
  | .ok () => Metrics.connectionState c.name "connected" ++ Metrics.connection c.name true
  | .error _ => Metrics.connection c.name false ++ Metrics.connectionState c.name "backoff"

theorem ensure_eq_ended (hlive : c.live = false) (h : c.Concludes ends last) (hk : last < k) :
    c.ensure (c.outcomes ends k) = c.ended (last + 1) (c.outcome (ends last)) ∧
      c.ensureReadings (c.outcomes ends k) =
        Metrics.connectionState c.name "connecting" ++
          (List.replicate last Incident.failed).flatMap (Incident.readings c.name) ++
          c.endReadings (c.outcome (ends last)) := by
  obtain ⟨rest, hsplit⟩ := c.outcomes_of_lt ends hk
  obtain ⟨hensure, hreadings⟩ := ensure_outcomes_append hlive h (Nat.le_refl last)
    (c.outcome (ends last) :: rest)
  rw [hsplit, hensure, hreadings, attempts, attemptsReadings, Nat.add_comm 1]
  cases hend : c.outcome (ends last) with
  | ok _ =>
    simp [afterAttempt, attemptReadings, ended, endReadings, stateReadings, ConnectionState.word]
  | error reason =>
    have hlast : last + 1 = c.limit := by
      refine h.stops.resolve_left fun hconnected => ?_
      rw [hconnected] at hend
      cases hend
    have hmost : c.retry.maxAttempts ≤ last + 1 := by
      rw [limit] at hlast
      omega
    simp [afterAttempt, attemptReadings, ended, endReadings, stateReadings, ConnectionState.word,
      hmost, Nat.add_assoc]

/-- A call that is over with an attempt makes exactly the attempts up to it. -/
theorem Concludes.makes (hlive : c.live = false) (h : c.Concludes ends last) :
    c.Makes ends (last + 1) where
  undecided := by
    intro k hk
    obtain ⟨hgo, -⟩ := ensure_outcomes_append hlive h (Nat.le_of_lt_succ hk) []
    rw [List.append_nil] at hgo
    rw [hgo]
    rfl
  decided := by
    rw [(ensure_eq_ended hlive h (Nat.lt_succ_self last)).1]
    cases c.outcome (ends last) <;> simp [ended]
  settled := by
    intro k hk
    rw [(ensure_eq_ended hlive h hk).1, (ensure_eq_ended hlive h (Nat.lt_succ_self last)).1]

/-- A call is over with the first attempt that succeeds, or with the last one allowed. -/
theorem exists_concludes (c : Connector) (ends : Nat → Attempt) :
    ∃ last, c.Concludes ends last ∧ last + 1 = min (firstConnected ends c.limit) c.limit := by
  have hpos : 1 ≤ c.limit := Nat.le_max_left _ _
  have hlength : ((List.range c.limit).map ends).length = c.limit := by simp
  have hbefore : ∀ i, i < ((List.range c.limit).map ends).findIdx (· = .connected) →
      i < c.limit → ends i ≠ .connected := by
    intro i hi hlt
    simpa using List.not_of_lt_findIdx hi
  rw [firstConnected]
  by_cases hfound : ((List.range c.limit).map ends).findIdx (· = .connected) < c.limit
  · have hwithin := hlength.symm.subst hfound
    have hat := List.findIdx_getElem (w := hwithin)
    refine ⟨_, ⟨hfound, fun i hi => hbefore i hi (by omega), .inl ?_⟩, by omega⟩
    simpa using hat
  · exact ⟨c.limit - 1, ⟨by omega, fun i hi => hbefore i (by omega) (by omega), .inr (by omega)⟩,
      by omega⟩

/-- A call fails exactly if all its attempts do. -/
theorem Concludes.fails_iff (hlive : c.live = false) (h : c.Concludes ends last) :
    (∃ fault, (c.ensure (c.outcomes ends (last + 1))).2 = some (.error fault)) ↔
      ∀ i < last + 1, ends i ≠ .connected := by
  rw [(ensure_eq_ended hlive h (Nat.lt_succ_self last)).1]
  cases hend : ends last with
  | connected =>
    constructor
    · rintro ⟨fault, hfault⟩
      simp [outcome, ended] at hfault
    · intro hall
      exact absurd hend (hall last (Nat.lt_succ_self last))
  | _ =>
    refine iff_of_true ⟨_, rfl⟩ fun i hi => ?_
    rcases Nat.lt_succ_iff_lt_or_eq.1 hi with hlt | rfl
    · exact h.failed i hlt
    · simp [hend]

theorem call_ensure_eq_ended (hlive : c.live = false) (h : c.Concludes ends last) :
    c.call (.ensure ends) = (c.ended (last + 1) (c.outcome (ends last))).1 := by
  rw [call, (ensure_eq_ended hlive h h.lt_limit).1]

/-! ## Any calls -/

/-- Failures are counted from the last success on. -/
def tally : Nat → Incident → Nat
  | _, .connected => 0
  | k, _ => k + 1

/-- What comes to pass in a call: its attempts one after the other, or that a connection is
dropped. -/
def incidents (c : Connector) : Call → List Incident
  | .ensure ends =>
    if c.live then []
    else (List.range (min (firstConnected ends c.limit) c.limit)).map fun i => .ofAttempt (ends i)
  | .invalidate => if c.live then [.dropped] else []

/-- What comes to pass in some calls. -/
def history (c : Connector) : List Call → List Incident
  | [] => []
  | call :: calls => c.incidents call ++ history (c.call call) calls

/-- What is reported in some calls. -/
def log (c : Connector) : List Call → List Metrics.Reading
  | [] => []
  | call :: calls => c.reports call ++ log (c.call call) calls

/-- What becomes of a connector in a call, and what it reports: it stays as it is, it drops its
connection, or it makes attempts until one is the last. -/
inductive Comes (c : Connector) : Call → Connector → List Metrics.Reading → Prop where
  | stays {call : Call} (hquiet : c.incidents call = []) : Comes c call c []
  | drops (hlive : c.live = true) :
      Comes c .invalidate
        { c with live := false, state := .disconnected, failures := c.failures + 1 }
        (Metrics.connectionState c.name "disconnected")
  | tries {ends : Nat → Attempt} {last : Nat} (hlive : c.live = false)
      (hends : c.Concludes ends last)
      (hincidents : c.incidents (.ensure ends) =
        List.replicate last .failed ++ [.ofAttempt (ends last)]) :
      Comes c (.ensure ends) (c.ended (last + 1) (c.outcome (ends last))).1
        (Metrics.connectionState c.name "connecting" ++
          (List.replicate last Incident.failed).flatMap (Incident.readings c.name) ++
          c.endReadings (c.outcome (ends last)))

theorem Incident.ofAttempt_of_ne {a : Attempt} (h : a ≠ .connected) : ofAttempt a = .failed := by
  cases a with
  | connected => exact absurd rfl h
  | _ => rfl

/-- All attempts of a call before its last have failed. -/
theorem Concludes.incidents_eq (hlive : c.live = false) (h : c.Concludes ends last)
    (hlast : last + 1 = min (firstConnected ends c.limit) c.limit) :
    c.incidents (.ensure ends) = List.replicate last .failed ++ [.ofAttempt (ends last)] := by
  rw [incidents, if_neg (by simp [hlive]), ← hlast, List.range_succ, List.map_append]
  refine congrArg (· ++ [Incident.ofAttempt (ends last)]) (List.eq_replicate_iff.2 ⟨by simp, ?_⟩)
  intro i hi
  obtain ⟨j, hj, rfl⟩ := List.mem_map.1 hi
  exact Incident.ofAttempt_of_ne (h.failed j (List.mem_range.1 hj))

theorem comes_call (c : Connector) (call : Call) : c.Comes call (c.call call) (c.reports call) := by
  cases call with
  | invalidate =>
    rw [Connector.call, reports, invalidateReadings, invalidate]
    split
    · rename_i hlive
      exact .drops hlive
    · rename_i hlive
      exact .stays (if_neg hlive)
  | ensure ends =>
    rw [Connector.call, reports]
    cases hlive : c.live with
    | true =>
      rw [ensure, ensureReadings, if_pos hlive, if_pos hlive]
      exact .stays (if_pos hlive)
    | false =>
      obtain ⟨last, hends, hlast⟩ := c.exists_concludes ends
      obtain ⟨hensure, hreadings⟩ := ensure_eq_ended hlive hends hends.lt_limit
      rw [hensure, hreadings]
      exact .tries hlive hends (hends.incidents_eq hlive hlast)

theorem settings_call (c : Connector) (call : Call) :
    (c.call call).name = c.name ∧ (c.call call).retry = c.retry := by
  have hcomes := c.comes_call call
  generalize c.call call = c', c.reports call = rs at hcomes
  cases hcomes with
  | stays => exact ⟨rfl, rfl⟩
  | drops => exact ⟨rfl, rfl⟩
  | @tries ends last => cases c.outcome (ends last) <;> exact ⟨rfl, rfl⟩

/-- The state says whether there is a connection. -/
def Consistent (c : Connector) : Prop := c.state = .connected ↔ c.live = true

theorem Consistent.call (h : c.Consistent) (call : Call) : (c.call call).Consistent := by
  have hcomes := c.comes_call call
  generalize c.call call = c', c.reports call = rs at hcomes
  cases hcomes with
  | stays => exact h
  | drops => simp [Consistent]
  | @tries ends last hlive => cases c.outcome (ends last) <;> simp [Consistent, ended, hlive]

theorem foldl_tally_replicate (n k : Nat) :
    (List.replicate n Incident.failed).foldl tally k = k + n := by
  induction n generalizing k with
  | zero => rfl
  | succ n ih =>
    rw [List.replicate_succ, List.foldl_cons, ih]
    simp only [tally, Nat.add_assoc, Nat.add_comm 1]

theorem failures_call (c : Connector) (call : Call) :
    (c.call call).failures = (c.incidents call).foldl tally c.failures := by
  have hcomes := c.comes_call call
  generalize c.call call = c', c.reports call = rs at hcomes
  cases hcomes with
  | stays hquiet =>
    rw [hquiet]
    rfl
  | drops hlive =>
    rw [incidents, if_pos hlive]
    rfl
  | @tries ends last hlive hends hincidents =>
    rw [hincidents, List.foldl_append, foldl_tally_replicate]
    -- the last attempt makes the count zero, or counts like those before it
    cases hend : ends last <;> simp [outcome, ended, tally, Incident.ofAttempt, Nat.add_assoc]

theorem retry_run (c : Connector) (calls : List Call) : (run c calls).retry = c.retry := by
  induction calls generalizing c with
  | nil => rfl
  | cons call calls ih => rw [run, List.foldl_cons, ← run, ih, (c.settings_call call).2]

theorem Consistent.run (h : c.Consistent) (calls : List Call) : (run c calls).Consistent := by
  induction calls generalizing c with
  | nil => exact h
  | cons call calls ih => exact ih (h.call call)

theorem failures_run (c : Connector) (calls : List Call) :
    (run c calls).failures = (c.history calls).foldl tally c.failures := by
  induction calls generalizing c with
  | nil => rfl
  | cons call calls ih =>
    rw [run, List.foldl_cons, ← run, ih, history, List.foldl_append, failures_call]

/-! ## What is reported -/

/-- The reports of attempts. -/
def attemptsIn (rs : List Metrics.Reading) : List Metrics.Reading :=
  rs.filter fun r => r.metric = "replicator_connections_total"

/-- The state that is reported last. -/
def lastState (rs : List Metrics.Reading) : Option Metrics.Reading :=
  (rs.filter fun r => r.metric = "replicator_connection_state").getLast?

section Reports

variable (name : String) (rs rs' : List Metrics.Reading)

theorem attemptsIn_append : attemptsIn (rs ++ rs') = attemptsIn rs ++ attemptsIn rs' := by
  rw [attemptsIn, List.filter_append]
  rfl

theorem lastState_append : lastState (rs ++ rs') = (lastState rs').or (lastState rs) := by
  rw [lastState, List.filter_append, List.getLast?_append]
  rfl

theorem attemptsIn_connectionState (state : String) :
    attemptsIn (Metrics.connectionState name state) = [] := by
  simp [attemptsIn, Metrics.connectionState]

theorem lastState_connectionState (state : String) :
    lastState (Metrics.connectionState name state) =
      some ⟨"replicator_connection_state", [("backend", name), ("state", state)], .gauge .one⟩ := by
  simp [lastState, Metrics.connectionState]

theorem metric_of_mem_readings {name : String} {i : Incident} {r : Metrics.Reading}
    (h : r ∈ i.readings name) : r.metric = "replicator_connections_total" := by
  cases i with
  | dropped => cases h
  | _ => rw [List.mem_singleton.1 h]

theorem attemptsIn_incidents (is : List Incident) :
    attemptsIn (is.flatMap (Incident.readings name)) = is.flatMap (Incident.readings name) := by
  rw [attemptsIn, List.filter_eq_self]
  intro r hr
  obtain ⟨i, -, hi⟩ := List.mem_flatMap.1 hr
  exact decide_eq_true (metric_of_mem_readings hi)

end Reports

theorem endReadings_tell (c : Connector) (n : Nat) (a : Attempt) :
    attemptsIn (c.endReadings (c.outcome a)) = (Incident.ofAttempt a).readings c.name ∧
      lastState (c.endReadings (c.outcome a)) =
        lastState (c.ended n (c.outcome a)).1.stateReadings ∧
      (lastState (c.endReadings (c.outcome a))).isSome = true := by
  cases a <;> exact ⟨rfl, rfl, rfl⟩

/-- What is reported in one call: its attempts, and last the state that it leaves. -/
theorem reports_tell (c : Connector) (call : Call) :
    attemptsIn (c.reports call) = (c.incidents call).flatMap (Incident.readings c.name) ∧
      lastState (c.stateReadings ++ c.reports call) = lastState (c.call call).stateReadings := by
  have hcomes := c.comes_call call
  generalize c.call call = c', c.reports call = rs at hcomes
  cases hcomes with
  | stays hquiet =>
    rw [hquiet, List.append_nil]
    exact ⟨rfl, rfl⟩
  | drops hlive =>
    rw [lastState_append, lastState_connectionState, attemptsIn_connectionState, incidents,
      if_pos hlive]
    exact ⟨rfl, (lastState_connectionState _ _).symm⟩
  | @tries ends last _ _ hincidents =>
    obtain ⟨hattempts, hstate, hsome⟩ := c.endReadings_tell (last + 1) (ends last)
    constructor
    · rw [attemptsIn_append, attemptsIn_append, attemptsIn_connectionState, attemptsIn_incidents,
        hattempts, hincidents, List.flatMap_append, List.flatMap_singleton, List.nil_append]
    · -- the last attempt reports the state, so that no state before it counts
      rw [lastState_append, lastState_append, Option.or_of_isSome hsome, Option.or_of_isSome hsome,
        hstate]

/-- Over any calls every attempt is reported with its end, and nothing else is reported as one; and
the last state that is reported, from the one at the beginning on, is the one at the end. -/
theorem log_tells (c : Connector) (calls : List Call) :
    attemptsIn (c.log calls) = (c.history calls).flatMap (Incident.readings c.name) ∧
      lastState (c.stateReadings ++ c.log calls) = lastState (run c calls).stateReadings := by
  induction calls generalizing c with
  | nil => exact ⟨rfl, by rw [log, List.append_nil, run, List.foldl_nil]⟩
  | cons call calls ih =>
    obtain ⟨hattempts, hstate⟩ := ih (c.call call)
    obtain ⟨hattempts', hstate'⟩ := c.reports_tell call
    have hname := (c.settings_call call).1
    constructor
    · rw [log, history, attemptsIn_append, hattempts', hattempts, List.flatMap_append, hname]
    · rw [run, List.foldl_cons, ← run, ← hstate, log, ← List.append_assoc, lastState_append, hstate',
        ← lastState_append]

/-! ## Any calls on a new connector -/

/-- Whatever is called on a new connector and however the attempts end: the state is "connected"
exactly while there is a connection. Without one, a call makes as many attempts as it takes to the
first success, but not more than allowed and at least one; it fails exactly if all of them do, and
then leaves the connector in backoff. The failures are none after a success, and since then one for
each attempt that failed and each connection that was dropped. -/
theorem run_consistent {accepts : String → Bool} {name url : String} {retry : Retry}
    {c : Connector} (h : ofUrl accepts name url retry = .ok c) (calls : List Call) :
    ((run c calls).state = .connected ↔ (run c calls).live = true) ∧
      (∀ ends, (run c calls).live = false →
        let most := max 1 retry.maxAttempts
        let n := min (firstConnected ends most) most
        (run c calls).Makes ends n ∧
          ((∃ fault, ((run c calls).ensure ((run c calls).outcomes ends n)).2 =
            some (.error fault)) ↔ ∀ i < n, ends i ≠ .connected) ∧
          ((∀ i < n, ends i ≠ .connected) → ((run c calls).call (.ensure ends)).state = .backoff)) ∧
      (run c calls).failures = (c.history calls).foldl tally 0 := by
  obtain rfl : c = { name, retry } := by
    rw [ofUrl] at h
    split at h
    · exact (Except.ok.inj h).symm
    · cases h
  have hconsistent : Consistent { name, retry } := by simp [Consistent]
  refine ⟨hconsistent.run calls, ?_, failures_run _ calls⟩
  have hlimit : (run { name, retry } calls).limit = max 1 retry.maxAttempts := by
    rw [limit, retry_run]
  generalize run { name, retry } calls = c at *
  intro ends hlive
  obtain ⟨last, hends, hlast⟩ := c.exists_concludes ends
  rw [hlimit] at hlast
  dsimp only
  rw [← hlast]
  refine ⟨hends.makes hlive, hends.fails_iff hlive, fun hall => ?_⟩
  rw [call_ensure_eq_ended hlive hends]
  obtain ⟨reason, hreason⟩ := exists_outcome_eq_error (hall last (Nat.lt_succ_self last)) c
  rw [hreason]
  rfl

/-- A call in vain, one that connects at its second attempt, and a connection that is dropped, once:
the next call goes on from one failure, and is made with all attempts again. -/
theorem run_consistent_dropped :
    let c : Connector := { name := "feed", retry := .testing }
    let second : Nat → Attempt := fun i => if i = 1 then .connected else .refused "busy"
    let never : Nat → Attempt := fun _ => .timedOut
    let calls : List Call := [.ensure never, .ensure second, .invalidate, .invalidate]
    ofUrl isUrl "feed" "redis://localhost:6379" .testing = .ok c ∧
      (run c calls).live = false ∧ (run c calls).state ≠ .connected ∧
      (run c calls).failures = 1 ∧ (run c calls).Makes second 2 ∧ (run c calls).Makes never 3 ∧
      ((run c calls).call (.ensure never)).state = .backoff := by
  intro c second never calls
  have hurl : isUrl "redis://localhost:6379" = true := by decide +kernel
  have hnew : ofUrl isUrl "feed" "redis://localhost:6379" .testing = .ok c := by
    rw [ofUrl, if_pos hurl]
  have hlive : (run c calls).live = false := by decide +kernel
  have hhistory : (c.history calls).foldl tally 0 = 1 := by decide +kernel
  have htwo : min (firstConnected second 3) 3 = 2 := by decide +kernel
  have hthree : min (firstConnected never 3) 3 = 3 := by decide +kernel
  obtain ⟨hstate, hensure, hfailures⟩ := run_consistent hnew calls
  have hsecond := (hensure second hlive).1
  obtain ⟨hnever, -, hbackoff⟩ := hensure never hlive
  rw [show max 1 Retry.testing.maxAttempts = 3 from rfl] at hsecond hnever
  rw [htwo] at hsecond
  rw [hthree] at hnever
  refine ⟨hnew, hlive, ?_, hfailures.trans hhistory, hsecond, hnever, hbackoff ?_⟩
  · rw [ne_eq, hstate, hlive]
    simp
  · intro i _
    simp [never]

end ChangeRelay.Redis.Connector
