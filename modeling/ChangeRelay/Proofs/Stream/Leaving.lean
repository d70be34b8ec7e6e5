import Mathlib.Data.List.Infix
import ChangeRelay.Proofs.Stream.Standing

/-!
# Leaving a session

A session commits what it has collected before it ends. Unless that commit fails, everything that
its triggers accepted was covered by the checkpoint at some moment of the session, with one
exception: where the checkpoint lies inside the range of the last batch nothing of it is written,
and the session ends all the same.
-/

namespace ChangeRelay

open Checkpoint (Proposal position standing)
open Store (Address Record Records BatchOp Fate Memory)

/-! ## Ends of a session -/

/-- A proposal that is told what the store answers. -/
def Checkpoint.Proposal.told (p : Proposal) : Signal → Proposal
  | .read answer => p.onRead answer
  | .wrote answer => p.onWrite answer
  | _ => p

namespace Consumer

/-- A phase in which changes are taken from a subscription. -/
def Collecting (c : Consumer) (s : Session) : Prop :=
  c.phase = .waiting s ∨ ∃ change, c.phase = .throttled s change

/-- A signal on which a commit returns an error: the breaker refuses what there is to commit, or the
proposal comes to a fault. -/
inductive CommitFails (c : Consumer) (m : Moment) (signal : Signal) : Prop where
  | refused {s : Session} {e : StoreFault} (hphase : c.Collecting s)
      (hbatch : s.batch.range ≠ none ∨ c.admitted signal ≠ none)
      (h : (c.writer.enter m.recovered).2.1 = .error e)
  | failed {p : Proposal} {after : AfterCommit} {e : StoreFault}
      (hphase : c.phase = .committing p after) (h : (p.told signal).result? = some (.error e))

/-- A signal by which a commit finds the checkpoint inside its range. -/
inductive Overtaken (c : Consumer) (signal : Signal) (current : UInt64) : Prop where
  | intro {p : Proposal} {after : AfterCommit} (hphase : c.phase = .committing p after)
      (h : (p.told signal).result? = some (.ok (.conflict current))) (hlt : current < p.range.last)

variable {c : Consumer} {m : Moment}

/-- What a signal has the last commit come to. -/
def decided? (c : Consumer) (signal : Signal) : Option Checkpoint.Outcome :=
  match c.phase with
  | .committing p _ => (p.told signal).result?.bind Except.toOption
  | _ => none

theorem result?_of_decided {signal : Signal} {p : Proposal} {after : AfterCommit}
    {outcome : Checkpoint.Outcome} (hphase : c.phase = .committing p after)
    (h : c.decided? signal = some outcome) : (p.told signal).result? = some (.ok outcome) := by
  simp only [decided?, hphase] at h
  obtain ⟨result, hresult, hok⟩ := Option.bind_eq_some_iff.1 h
  cases result with
  | error e => cases hok
  | ok found =>
      cases hok
      exact hresult

/-- A commit that comes to a decision does not fail. -/
theorem not_commitFails_of_decided {signal : Signal} {outcome : Checkpoint.Outcome}
    (h : c.decided? signal = some outcome) : ¬ c.CommitFails m signal := by
  intro hfails
  cases hfails with
  | refused hphase =>
      rcases hphase with hphase | ⟨change, hphase⟩
      · simp [decided?, hphase] at h
      · simp [decided?, hphase] at h
  | failed hphase hfailed =>
      rw [result?_of_decided hphase h] at hfailed
      cases hfailed

theorem not_overtaken_of_applied {signal : Signal} (h : c.decided? signal = some .applied) :
    ¬ ∃ current, c.Overtaken signal current := by
  rintro ⟨current, hphase, hresult, -⟩
  rw [result?_of_decided hphase h] at hresult
  cases hresult

/-- A batch that the breaker lets through is committed. -/
theorem flush_committing {s : Session} {range : SeqRange} (hrange : s.batch.range = some range)
    (henter : ∀ e, (c.writer.enter m.recovered).2.1 ≠ .error e) (after : AfterCommit) :
    ∃ p, (c.flush s after m).1.phase = .committing p after := by
  unfold flush
  simp only [hrange]
  split
  · rename_i writer e readings heq
    exact absurd (congrArg (fun r => r.2.1) heq) (henter e)
  · exact ⟨_, rfl⟩

theorem flush_not_quiet {s : Session} {range : SeqRange} (hrange : s.batch.range = some range)
    (henter : ∀ e, (c.writer.enter m.recovered).2.1 ≠ .error e) (after : AfterCommit) :
    ¬ (c.flush s after m).1.phase.Quiet := by
  obtain ⟨p, hphase⟩ := flush_committing hrange henter after
  rw [hphase]
  intro hquiet
  cases hquiet

theorem apply_not_quiet {s : Session} {change : Change}
    (hbatch : s.batch.range ≠ none ∨ (c.pipeline.apply change).isOk)
    (henter : ∀ e, (c.writer.enter m.recovered).2.1 ≠ .error e) :
    ¬ (c.apply s change m).1.phase.Quiet := by
  unfold apply
  cases happly : c.pipeline.apply change with
  | error e =>
      rw [happly] at hbatch
      rcases hbatch with hbatch | hbatch
      · obtain ⟨range, hrange⟩ := Option.ne_none_iff_exists'.1 hbatch
        exact flush_not_quiet (c := { c with stalledAt := some change.seq }) hrange henter _
      · cases hbatch
  | ok intents =>
      obtain ⟨range, hrange⟩ := push_range s.batch change.seq intents
      simp only
      split
      · exact flush_not_quiet hrange henter _
      · intro hquiet
        cases hquiet

theorem itemRead_not_quiet {s : Session} (hphase : c.phase = .waiting s) (answer : FeedAnswer)
    (hbatch : s.batch.range ≠ none ∨ c.admitted (.item answer) ≠ none)
    (henter : ∀ e, (c.writer.enter m.recovered).2.1 ≠ .error e) :
    ¬ (c.itemRead s answer m).1.phase.Quiet := by
  have hflush : c.admitted (.item answer) = none → ∀ after,
      ¬ (c.flush s after m).1.phase.Quiet := by
    intro hnone after
    obtain ⟨range, hrange⟩ :=
      Option.ne_none_iff_exists'.1 (hbatch.resolve_right fun h => h hnone)
    exact flush_not_quiet hrange henter after
  unfold itemRead
  split
  · exact hflush (by simp [admitted, hphase]) _
  · exact hflush (by simp [admitted, hphase]) _
  · rw [hphase]
    intro hquiet
    cases hquiet
  · rename_i change
    unfold receive
    split
    · intro hquiet
      cases hquiet
    · split
      · intro hquiet
        cases hquiet
      · refine apply_not_quiet (hbatch.imp_right fun hadmitted => ?_) henter
        by_contra hrefused
        simp [admitted, hphase, hrefused] at hadmitted

/-- A session that has something to commit does not end at once, unless the breaker refuses. -/
theorem Collecting.not_quiet {s : Session} {signal : Signal} (hphase : c.Collecting s)
    (hempty : s.batch.range ≠ none → s.batch.isEmpty = false)
    (hbatch : s.batch.range ≠ none ∨ c.admitted signal ≠ none)
    (henter : ∀ e, (c.writer.enter m.recovered).2.1 ≠ .error e) :
    ¬ (c.step m signal).1.phase.Quiet := by
  rcases hphase with hphase | ⟨change, hphase⟩
  · have hstay : ¬ c.phase.Quiet := by
      rw [hphase]
      intro hquiet
      cases hquiet
    cases signal with
    | item answer =>
        simp only [step, hphase]
        exact itemRead_not_quiet hphase answer hbatch henter
    | elapsed =>
        have hsome := hbatch.resolve_right (by simp [admitted, hphase])
        obtain ⟨range, hrange⟩ := Option.ne_none_iff_exists'.1 hsome
        simp only [step, hphase, outOfPatience, hempty hsome, Bool.false_eq_true, if_false]
        exact flush_not_quiet hrange henter _
    | stop =>
        have hsome := hbatch.resolve_right (by simp [admitted, hphase])
        obtain ⟨range, hrange⟩ := Option.ne_none_iff_exists'.1 hsome
        simp only [step, hphase]
        exact flush_not_quiet hrange henter _
    | _ =>
        simp only [step, hphase]
        rwa [hphase] at hstay
  · cases signal with
    | passed =>
        simp only [step, hphase]
        refine apply_not_quiet (hbatch.imp_right fun hadmitted => ?_) henter
        by_contra hrefused
        simp [admitted, hphase, hrefused] at hadmitted
    | _ =>
        simp only [step, hphase]
        intro hquiet
        cases hquiet

end Consumer

/-- A batch with a range is not empty. -/
theorem collect_isEmpty {p : Pipeline} {taken : List Change} (h : (p.collect taken).range ≠ none) :
    (p.collect taken).isEmpty = false := by
  cases taken using List.reverseRecOn with
  | nil => exact absurd rfl h
  | append_singleton taken c =>
      rw [collect_append_singleton, Batch.push, Batch.isEmpty]
      simp

/-- How a session ends whose commits do not fail: with nothing in hand, or by an answer to its last
proposal. -/
theorem Stands.over {known : List Records} {pos : UInt64} {c : Consumer} {taken : List Change}
    {signal : Signal} (h : Stands known pos c taken c.phase) (hin : ¬ c.phase.Quiet) {m : Moment}
    (hover : (c.step m signal).1.phase.Quiet) (hok : ¬ c.CommitFails m signal) :
    (taken = [] ∧ c.admitted signal = none) ∨ ∃ p after outcome,
      c.phase = .committing p after ∧ (p.told signal).result? = some (.ok outcome) := by
  -- with something in hand the session would not be over
  have hcollecting : ∀ s, c.Collecting s → Collected c.pipeline pos taken s →
      taken = [] ∧ c.admitted signal = none := by
    intro s hphase hcol
    have hbatch : ¬ (s.batch.range ≠ none ∨ c.admitted signal ≠ none) := by
      intro hbatch
      refine hphase.not_quiet ?_ hbatch (fun e he => hok (.refused hphase hbatch he)) hover
      rw [hcol.batch]
      exact collect_isEmpty
    rw [not_or, not_ne_iff, not_ne_iff, hcol.batch, collect_range_eq_none] at hbatch
    exact hbatch
  generalize hphase : c.phase = phase at h
  cases h with
  | quiet hquiet => exact absurd (hphase ▸ hquiet) hin
  | subscribing hle hnone => exact .inl ⟨hnone, by simp [Consumer.admitted, hphase]⟩
  | @waiting s hcol => exact .inl (hcollecting s (.inl hphase) hcol)
  | @throttled s change hcol hlt => exact .inl (hcollecting s (.inr ⟨change, hphase⟩) hcol)
  | @committing p after hp hpending =>
      right
      have hgoesOn : ∀ p', p'.result? = none → ¬ (c.proposed p' after m).1.phase.Quiet := by
        intro p' hnone hquiet
        simp only [Consumer.proposed, hnone] at hquiet
        cases hquiet
      cases hresult : (p.told signal).result? with
      | some result =>
          cases result with
          | error e => exact absurd (.failed hphase hresult) hok
          | ok outcome => exact ⟨p, after, outcome, rfl, hresult⟩
      | none =>
          exfalso
          cases signal with
          | read answer =>
              simp only [Consumer.step, hphase] at hover
              exact hgoesOn _ hresult hover
          | wrote answer =>
              simp only [Consumer.step, hphase] at hover
              exact hgoesOn _ hresult hover
          | _ =>
              simp only [Consumer.step, hphase] at hover
              exact hin (hphase ▸ hover)

/-- A session that goes on with nothing in hand has committed what it had. -/
theorem Stands.le_of_emptied {known known' : List Records} {pos pos' : UInt64} {c c' : Consumer}
    {taken : List Change} {signal : Signal} {phase : ConsumerPhase}
    (h : Stands known pos c taken c.phase) (hmove : c.Move signal phase) (hin : ¬ phase.Quiet)
    (hempty : phase.holdsBatch = false) (h' : Stands known' pos' c' [] phase) :
    ∀ x ∈ taken ++ (c.admitted signal).toList, x.seq ≤ pos' := by
  have htaken := h.taken_eq
  -- in most moves nothing was in hand before
  have hnothing : taken = [] → c.admitted signal = none →
      ∀ x ∈ taken ++ (c.admitted signal).toList, x.seq ≤ pos' := by
    intro htaken hnone x hx
    rw [htaken, hnone] at hx
    cases hx
  have hanswered : ∀ {p p' : Proposal} {after : AfterCommit}, c.phase = .committing p after →
      p'.range = p.range → Consumer.Answered p' after phase →
      ∀ x ∈ taken ++ (c.admitted signal).toList, x.seq ≤ pos' := by
    intro p p' after hphase hrange hanswered
    have hnone : c.admitted signal = none := by simp only [Consumer.admitted, hphase]
    rw [hnone, Option.toList_none, List.append_nil]
    rw [hphase] at h
    cases hanswered with
    | further hpending => cases hempty
    | quiet hquiet => exact absurd hquiet hin
    | settled hgoOn hresult =>
        -- the cursor is at the end of the range, and the checkpoint came to it
        cases h with
        | quiet hquiet => cases hquiet
        | committing hp hpending =>
            intro x hx
            have hbound := (collect_bounds hp.ascending hp.range x hx).2
            cases h' with
            | quiet hquiet => cases hquiet
            | waiting hcol =>
                have hcursor := hcol.reached rfl
                rw [hp.goOn _ hgoOn] at hcursor
                exact UInt64.le_trans hbound hcursor
  cases hmove with
  | stay hnone hskip =>
      rw [hempty] at htaken
      exact hnothing htaken.symm hnone
  | leave hquiet => exact absurd hquiet hin
  | found hphase hsignal hfound =>
      rw [hphase] at htaken
      exact hnothing htaken.symm (by simp [Consumer.admitted, hphase])
  | opened hphase hsignal =>
      rw [hphase] at htaken
      exact hnothing htaken.symm (by simp [Consumer.admitted, hphase])
  | held hphase hsignal hlt hnone =>
      have hwaiting : c.phase.holdsBatch = false := by
        rw [hphase]
        exact hempty
      rw [hwaiting] at htaken
      exact hnothing htaken.symm hnone
  | took htakes => cases hempty
  | tookFull htakes hrange => cases hempty
  | flushed hphase hnone hrange hafter => cases hempty
  | drained hphase hsignal hrange hisEmpty =>
      have hwaiting : c.phase.holdsBatch = false := by
        rw [hphase, ConsumerPhase.holdsBatch, hrange]
        rfl
      rw [hwaiting] at htaken
      exact hnothing htaken.symm (by simp [Consumer.admitted, hsignal])
  | read hphase hsignal hanswer =>
      exact hanswered hphase (by rw [Proposal.onRead_eq]) hanswer
  | wrote hphase hsignal hanswer =>
      exact hanswered hphase (by rw [Proposal.onWrite_eq]) hanswer

/-! ## Runs -/

/-- What is checked of every beginning of some events holds of each way to part them. -/
theorem forall_beginning {E : Type} {events : List E} {P : List E → Prop}
    (h : ∀ earlier ∈ events.inits, P earlier) :
    ∀ earlier later, events = earlier ++ later → P earlier := fun earlier later hsplit =>
  h earlier ((List.mem_inits ..).2 ⟨later, hsplit.symm⟩)

/-- The highest value in the course of events, given the value after each beginning. -/
structure Highest {E : Type} (f : List E → UInt64) (events : List E) (top : UInt64) : Prop where
  reached : ∃ earlier later, events = earlier ++ later ∧ top ≤ f earlier
  bound : ∀ earlier later, events = earlier ++ later → f earlier ≤ top

section Highest

variable {E : Type} {f : List E → UInt64}

theorem Highest.nil (f : List E → UInt64) : Highest f [] (f []) where
  reached := ⟨[], [], rfl, UInt64.le_refl _⟩
  bound earlier later h := by
    rw [(List.nil_eq_append_iff.1 h).1]
    exact UInt64.le_refl _

theorem Highest.append_singleton {events : List E} {top : UInt64} (h : Highest f events top)
    (e : E) : ∃ top', top ≤ top' ∧ Highest f (events ++ [e]) top' := by
  -- a beginning is one of the events before, or all of them
  have hsplit : ∀ earlier later, events ++ [e] = earlier ++ later →
      earlier = events ++ [e] ∨ ∃ later', events = earlier ++ later' := by
    intro earlier later heq
    rcases List.eq_nil_or_concat later with rfl | ⟨later', e', rfl⟩
    · exact .inl (by simpa using heq.symm)
    · refine .inr ⟨later', ?_⟩
      rw [List.concat_eq_append, ← List.append_assoc] at heq
      exact (List.append_inj' heq rfl).1
  rcases UInt64.le_total (f (events ++ [e])) top with hle | hle
  · refine ⟨top, UInt64.le_refl _, ?_, ?_⟩
    · obtain ⟨earlier, later, heq, htop⟩ := h.reached
      exact ⟨earlier, later ++ [e], by rw [heq, List.append_assoc], htop⟩
    · intro earlier later heq
      rcases hsplit earlier later heq with rfl | ⟨later', heq'⟩
      · exact hle
      · exact h.bound earlier later' heq'
  · refine ⟨_, hle, ⟨events ++ [e], [], by simp, UInt64.le_refl _⟩, ?_⟩
    intro earlier later heq
    rcases hsplit earlier later heq with rfl | ⟨later', heq'⟩
    · exact UInt64.le_refl _
    · exact UInt64.le_trans (h.bound earlier later' heq') hle

end Highest

/-- A session in the course of events, given the phase after each beginning: it starts with the
reading of the checkpoint, and has not ended since. -/
structure UnderWay {E : Type} (phase : List E → ConsumerPhase) (events : List E) : Prop where
  begins : phase [] = .reading
  begun : events ≠ []
  lasts : ∀ earlier later, events = earlier ++ later → earlier ≠ [] → ¬ (phase earlier).Quiet

/-! ## Members of a group -/

namespace Group

variable {ι : Type} [DecidableEq ι] {g : Group ι} {i : ι} {pos pos' : UInt64}

section Answers

variable {p : Proposal} {after : AfterCommit} {e : Event ι} {m : Moment} {signal : Signal}

/-- A decision tells where the checkpoint then stands: at the end of the range, or where it was
found in the way. -/
theorem position_of_outcome
    (h : Stands g.past pos (g.member i).consumer (g.member i).taken (g.member i).consumer.phase)
    (hphase : (g.member i).consumer.phase = .committing p after)
    (hgiven : g.given i e = some (m, signal)) {outcome : Checkpoint.Outcome}
    (hresult : (p.told signal).result? = some (.ok outcome)) :
    (outcome = .applied ∧
      position (g.step e).store (g.member i).consumer.checkpoint = p.range.last) ∨
    outcome = .conflict (position (g.step e).store (g.member i).consumer.checkpoint) := by
  have hproposes : Proposes g.past (g.member i).consumer (g.member i).taken p after ∧
      p.result? = none := by
    have h' := h
    rw [hphase] at h'
    cases h' with
    | quiet hquiet => cases hquiet
    | committing hp hpending => exact ⟨hp, hpending⟩
  obtain ⟨hp, hpending⟩ := hproposes
  cases e with
  | signal j m' s =>
      -- only the store tells a proposal anything
      simp only [given] at hgiven
      split at hgiven
      · rename_i hs
        cases hgiven
        have htold : p.told signal = p := by
          cases signal with
          | read answer => cases hs.2
          | wrote answer => cases hs.2
          | _ => rfl
        rw [htold, hpending] at hresult
        cases hresult
      · cases hgiven
  | read j m' fault =>
      right
      simp only [given] at hgiven
      split at hgiven
      · rename_i a hreq
        split at hgiven
        · rename_i hj
          cases hgiven
          subst hj
          have hreq' : p.request = some (.get a) := by
            simpa [Consumer.request, hphase] using hreq
          have hstore : (g.step (.read j m fault)).store = g.store := by
            simp only [step, hreq]
            rfl
          cases fault with
          | some e => exact absurd hresult (Proposal.onRead_error_result?_ne hpending e _)
          | none =>
              cases outcome with
              | applied => exact absurd hresult (Proposal.onRead_result?_ne hreq' _)
              | conflict current =>
                  rw [hstore, ← hp.address, ← onRead_conflict hreq' hresult]
        · cases hgiven
      · cases hgiven
  | write j m' fate =>
      left
      simp only [given] at hgiven
      split at hgiven
      · rename_i ops hreq
        split at hgiven
        · rename_i hj
          cases hgiven
          subst hj
          cases outcome with
          | conflict current => exact absurd hresult (p.onWrite_result?_ne_conflict _ _)
          | applied =>
              refine ⟨rfl, ?_⟩
              have hstore : (g.step (.write j m fate)).store = (g.store.submit ops fate).1 := by
                simp only [step, hreq]
                rfl
              rcases Store.submit_cases g.store ops fate with ⟨-, hs⟩ | ⟨-, -, e, hanswer⟩
              · obtain ⟨p', after', hcommitted, -⟩ := committed_of_stage h hreq hs
                have hsame := hcommitted.phase.symm.trans hphase
                rw [ConsumerPhase.committing.injEq] at hsame
                rw [hstore, position, hcommitted.reaches, hsame.1]
                rfl
              · rw [Proposal.told, hanswer] at hresult
                exact absurd hresult (p.onWrite_error_result?_ne e)
        · cases hgiven
      · cases hgiven
  | restart j settings circuit => cases hgiven
  | foreign a action => cases hgiven

end Answers

/-! ## What a session accepts -/

/-- The change that an event adds to the batch of a member. -/
def accepts (g : Group ι) (i : ι) (e : Event ι) : List Change :=
  ((g.given i e).bind fun told => (g.member i).consumer.admitted told.2).toList

/-- The changes that a member accepts in the course of events. -/
def accepted (g : Group ι) (i : ι) : List (Event ι) → List Change
  | [] => []
  | e :: rest => g.accepts i e ++ (g.step e).accepted i rest

theorem accepted_append_singleton (g : Group ι) (i : ι) (events : List (Event ι)) (e : Event ι) :
    g.accepted i (events ++ [e]) = g.accepted i events ++ (g.run events).accepts i e := by
  induction events generalizing g with
  | nil => simp [accepted, run]
  | cons e' rest ih =>
      rw [List.cons_append, accepted, ih, accepted, List.append_assoc]
      rfl

/-- A member in a session against what it accepted there, where the checkpoint has not been beyond
`top`. -/
structure Covers (g : Group ι) (i : ι) (top : UInt64) (accepted : List Change) : Prop where
  stands : Stands g.past top (g.member i).consumer (g.member i).taken (g.member i).consumer.phase
  present : g.store ∈ g.past
  before : position g.store (g.member i).consumer.checkpoint ≤ top
  covered : ∀ x ∈ accepted, x.seq ≤ top ∨ x ∈ (g.member i).taken
  taken : ∀ x ∈ (g.member i).taken, x ∈ accepted

variable {top top' : UInt64} {accepted : List Change} {e : Event ι}

/-- What a session that goes on has in hand grows by what it accepts, or was committed. -/
theorem Covers.hands (h : Covers g i top accepted)
    (hin : ¬ ((g.step e).member i).consumer.phase.Quiet)
    (hstands : Stands (g.step e).past top' ((g.step e).member i).consumer
      ((g.step e).member i).taken ((g.step e).member i).consumer.phase) :
    ((g.step e).member i).taken = (g.member i).taken ++ g.accepts i e ∨
      ((g.step e).member i).taken = [] ∧
        ∀ x ∈ (g.member i).taken ++ g.accepts i e, x.seq ≤ top' := by
  cases hgiven : g.given i e with
  | none =>
      rw [accepts, hgiven, Option.bind_none, Option.toList_none, List.append_nil]
      rcases member_of_given_none hgiven with hsame | ⟨settings, circuit, hrestart⟩
      · exact .inl (by rw [hsame])
      · rw [hrestart] at hin
        exact absurd .starting hin
  | some told =>
      obtain ⟨m, s⟩ := told
      have hmember := member_of_given hgiven
      rw [accepts, hgiven, Option.bind_some]
      rw [hmember] at hin hstands ⊢
      have htaken := taken_step (g.member i) m s
      cases hholds : ((g.member i).step m s).consumer.phase.holdsBatch with
      | true =>
          rw [hholds, if_pos rfl] at htaken
          exact .inl htaken
      | false =>
          rw [hholds] at htaken
          rw [htaken] at hstands
          have hmove := ((g.member i).consumer.step_turns m s).phase
          exact .inr ⟨htaken, h.stands.le_of_emptied hmove hin hholds hstands⟩

/-- What a session accepts is in its hand until the checkpoint has covered it. -/
theorem Covers.step (h : Covers g i top accepted)
    (hin : ¬ ((g.step e).member i).consumer.phase.Quiet) (hle : top ≤ top')
    (hafter : position (g.step e).store (g.member i).consumer.checkpoint ≤ top') :
    Covers (g.step e) i top' (accepted ++ g.accepts i e) := by
  have hstands := stands_step h.stands h.present h.before e hle hafter
  have hcheckpoint := (g.member_keeps e i).checkpoint
  -- it was in hand before, or is accepted now
  have hold : ∀ x ∈ accepted ++ g.accepts i e,
      x.seq ≤ top' ∨ x ∈ (g.member i).taken ++ g.accepts i e := by
    intro x hx
    rcases List.mem_append.1 hx with hx | hx
    · rcases h.covered x hx with hx | hx
      · exact .inl (UInt64.le_trans hx hle)
      · exact .inr (List.mem_append_left _ hx)
    · exact .inr (List.mem_append_right _ hx)
  refine ⟨hstands, present_step h.present e, hcheckpoint ▸ hafter, ?_, ?_⟩
  · intro x hx
    rcases h.hands hin hstands with htaken | ⟨-, hcovered⟩
    · rw [htaken]
      exact hold x hx
    · exact .inl ((hold x hx).elim id (hcovered x))
  · intro x hx
    rcases h.hands hin hstands with htaken | ⟨htaken, -⟩
    · rw [htaken] at hx
      rcases List.mem_append.1 hx with hx | hx
      · exact List.mem_append_left _ (h.taken x hx)
      · exact List.mem_append_right _ hx
    · rw [htaken] at hx
      cases hx

/-! ## Whole sessions -/

/-- What a session that is over had in hand was committed, or lies beyond the checkpoint that its
last commit found in its way. -/
theorem le_of_over
    (h : Stands g.past pos (g.member i).consumer (g.member i).taken (g.member i).consumer.phase)
    (hin : ¬ (g.member i).consumer.phase.Quiet) {m : Moment} {signal : Signal}
    (hgiven : g.given i e = some (m, signal))
    (hover : ((g.step e).member i).consumer.phase.Quiet)
    (hok : ¬ (g.member i).consumer.CommitFails m signal) :
    ∀ x ∈ (g.member i).taken ++ g.accepts i e,
      x.seq ≤ position (g.step e).store (g.member i).consumer.checkpoint ∨
      ∃ current, (g.member i).consumer.Overtaken signal current ∧ current < x.seq := by
  intro x hx
  rw [member_of_given hgiven] at hover
  rw [accepts, hgiven, Option.bind_some] at hx
  rcases h.over hin hover hok with ⟨htaken, hnone⟩ | ⟨p, after, outcome, hphase, hresult⟩
  · rw [htaken, hnone] at hx
    cases hx
  · have hnone : (g.member i).consumer.admitted signal = none := by
      simp only [Consumer.admitted, hphase]
    rw [hnone, Option.toList_none, List.append_nil] at hx
    have houtcome := position_of_outcome h hphase hgiven hresult
    rw [hphase] at h
    cases h with
    | quiet hquiet => cases hquiet
    | committing hp hpending =>
        have hbound := (collect_bounds hp.ascending hp.range x hx).2
        rcases houtcome with ⟨-, hlast⟩ | hconflict
        · exact .inl (hlast ▸ hbound)
        · rw [hconflict] at hresult
          rcases UInt64.lt_or_le (position (g.step e).store (g.member i).consumer.checkpoint)
            x.seq with hlt | hle
          · exact .inr ⟨_, ⟨hphase, hresult, UInt64.lt_of_lt_of_le hlt hbound⟩, hlt⟩
          · exact .inl hle

/-- A commit that finds the checkpoint inside its range has a change beyond it. -/
theorem lt_of_overtaken
    (h : Stands g.past pos (g.member i).consumer (g.member i).taken (g.member i).consumer.phase)
    {m : Moment} {signal : Signal} (hgiven : g.given i e = some (m, signal)) {current : UInt64}
    (hovertaken : (g.member i).consumer.Overtaken signal current) :
    current = position (g.step e).store (g.member i).consumer.checkpoint ∧
      ∃ x ∈ (g.member i).taken, current < x.seq := by
  obtain ⟨hphase, hresult, hlt⟩ := hovertaken
  have hcurrent := position_of_outcome h hphase hgiven hresult
  rw [hphase] at h
  cases h with
  | quiet hquiet => cases hquiet
  | committing hp hpending =>
      obtain ⟨x, hx, hlast⟩ := collect_last hp.range
      refine ⟨?_, x, List.mem_of_getLast? hx, hlast ▸ hlt⟩
      rcases hcurrent with ⟨happlied, -⟩ | hconflict
      · cases happlied
      · exact Checkpoint.Outcome.conflict.inj hconflict

theorem keeps_run (g : Group ι) (i : ι) (events : List (Event ι)) :
    (g.member i).consumer.Keeps ((g.run events).member i).consumer := by
  induction events using List.reverseRecOn with
  | nil => exact .refl _
  | append_singleton events e ih =>
      rw [run_append_singleton]
      exact ih.trans ((g.run events).member_keeps e i)

/-- A member stands at any time of a run, against some position. -/
theorem stands_run (rs : Records) {start : ι → Consumer} (i : ι)
    (hfresh : (start i).phase = .starting) (events : List (Event ι)) :
    ∃ pos, Stands ((begin rs start).run events).past pos
        (((begin rs start).run events).member i).consumer
        (((begin rs start).run events).member i).taken
        (((begin rs start).run events).member i).consumer.phase ∧
      ((begin rs start).run events).store ∈ ((begin rs start).run events).past ∧
      position ((begin rs start).run events).store (start i).checkpoint ≤ pos := by
  induction events using List.reverseRecOn with
  | nil =>
      have hphase : (((begin rs start).run []).member i).consumer.phase = .starting := hfresh
      refine ⟨position rs (start i).checkpoint, ?_, List.mem_singleton_self _, UInt64.le_refl _⟩
      rw [hphase]
      exact .quiet .starting rfl
  | append_singleton events e ih =>
      obtain ⟨pos, hstands, hpresent, hbefore⟩ := ih
      have hcheckpoint := (keeps_run (begin rs start) i events).checkpoint
      rw [run_append_singleton]
      -- the position rises as far as the checkpoint does
      obtain ⟨pos', hle, hafter⟩ : ∃ pos', pos ≤ pos' ∧
          position ((((begin rs start).run events).step e).store) (start i).checkpoint ≤ pos' := by
        rcases UInt64.le_total (position ((((begin rs start).run events).step e).store)
          (start i).checkpoint) pos with h | h
        · exact ⟨pos, UInt64.le_refl _, h⟩
        · exact ⟨_, h, UInt64.le_refl _⟩
      refine ⟨pos', stands_step hstands hpresent ?_ e hle ?_, present_step hpresent e, hafter⟩
      · rw [hcheckpoint]
        exact hbefore
      · rw [hcheckpoint]
        exact hafter

/-- The phase of a member in the course of events. -/
def phaseOf (g : Group ι) (i : ι) (events : List (Event ι)) : ConsumerPhase :=
  ((g.run events).member i).consumer.phase

/-- Where a checkpoint stands in the course of events. -/
def positionOf (g : Group ι) (a : Address) (events : List (Event ι)) : UInt64 :=
  position (g.run events).store a

/-- A session covers what it accepts up to the highest position that the checkpoint came to. -/
theorem covers_of_underWay {rs : Records} {start : ι → Consumer} {before during : List (Event ι)}
    (hfresh : (start i).phase = .starting)
    (h : UnderWay (((begin rs start).run before).phaseOf i) during) :
    ∃ top, Highest (((begin rs start).run before).positionOf (start i).checkpoint) during top ∧
      Covers (((begin rs start).run before).run during) i top
        (((begin rs start).run before).accepted i during) := by
  obtain ⟨pos, hstands, hpresent, -⟩ := stands_run rs i hfresh before
  have hstart := (keeps_run (begin rs start) i before).checkpoint
  generalize (begin rs start).run before = g at h hstands hpresent hstart
  have hcheckpoint : ∀ events, ((g.run events).member i).consumer.checkpoint =
      (start i).checkpoint := fun events => (keeps_run g i events).checkpoint.trans hstart
  have hbegins : (g.member i).consumer.phase = .reading := h.begins
  have hlasts := h.lasts
  clear h
  induction during using List.reverseRecOn with
  | nil =>
      have htaken : (g.member i).taken = [] := by
        rw [hbegins] at hstands
        cases hstands with
        | quiet hquiet hnone => exact hnone
      have hstands' : Stands g.past (position g.store (start i).checkpoint) (g.member i).consumer
          (g.member i).taken (g.member i).consumer.phase := by
        rw [hbegins]
        exact .quiet .reading htaken
      refine ⟨_, .nil _, hstands', hpresent, ?_, ?_, ?_⟩
      · rw [hcheckpoint]
        exact UInt64.le_refl _
      · intro x hx
        cases hx
      · intro x hx
        have hnone : x ∈ (g.member i).taken := hx
        rw [htaken] at hnone
        cases hnone
  | append_singleton events e ih =>
      obtain ⟨top, hhighest, hcovers⟩ := ih fun earlier later heq hne =>
        hlasts earlier (later ++ [e]) (by rw [heq, List.append_assoc]) hne
      obtain ⟨top', hle, hhighest'⟩ := hhighest.append_singleton e
      refine ⟨top', hhighest', ?_⟩
      have hin := hlasts (events ++ [e]) [] (by simp) (by simp)
      have hafter := hhighest'.bound (events ++ [e]) [] (by simp)
      rw [phaseOf, run_append_singleton] at hin
      rw [positionOf, run_append_singleton] at hafter
      rw [run_append_singleton, accepted_append_singleton]
      apply hcovers.step hin hle
      rw [hcheckpoint]
      exact hafter

/-- A session, and the event that ends it by what it tells the member, which is no commit that
fails. -/
structure Leaves (g : Group ι) (i : ι) (during : List (Event ι)) (e : Event ι) (m : Moment)
    (signal : Signal) : Prop where
  underWay : UnderWay (g.phaseOf i) during
  told : (g.run during).given i e = some (m, signal)
  ended : (g.phaseOf i (during ++ [e])).Quiet
  commits : ¬ ((g.run during).member i).consumer.CommitFails m signal

/-- A session can be followed event by event. -/
theorem exists_leaves (during : List (Event ι)) (e : Event ι) (outcome : Checkpoint.Outcome)
    (hbegins : (g.member i).consumer.phase = .reading) (hbegun : during ≠ [])
    (hlasts : ∀ earlier ∈ during.inits, earlier ≠ [] → ¬ (g.phaseOf i earlier).Quiet)
    (hover : (g.phaseOf i (during ++ [e])).Quiet)
    (hdecided : ∃ told ∈ (g.run during).given i e,
      ((g.run during).member i).consumer.decided? told.2 = some outcome) :
    ∃ m signal, g.Leaves i during e m signal ∧
      ((g.run during).member i).consumer.decided? signal = some outcome := by
  obtain ⟨⟨m, signal⟩, hgiven, houtcome⟩ := hdecided
  exact ⟨m, signal, ⟨⟨hbegins, hbegun, forall_beginning hlasts⟩, hgiven, hover,
    Consumer.not_commitFails_of_decided houtcome⟩, houtcome⟩

/-- What becomes of the changes that a session accepts: each was covered by the checkpoint at some
moment, or the last commit found the checkpoint before it and inside the range. If nobody has taken
the checkpoint back, the latter is what leaves a change behind. -/
theorem covered_or_overtaken {rs : Records} {start : ι → Consumer} {before during : List (Event ι)}
    {g : Group ι} (hrun : (begin rs start).run before = g) (hfresh : (start i).phase = .starting)
    {m : Moment} {signal : Signal} (h : g.Leaves i during e m signal) :
    (∀ x ∈ g.accepted i (during ++ [e]),
      (∃ earlier later, during ++ [e] = earlier ++ later ∧
        x.seq ≤ g.positionOf (start i).checkpoint earlier) ∨
      ∃ current, ((g.run during).member i).consumer.Overtaken signal current ∧ current < x.seq) ∧
    ((∀ earlier later, during ++ [e] = earlier ++ later →
        g.positionOf (start i).checkpoint earlier ≤
          g.positionOf (start i).checkpoint (during ++ [e])) →
      ((∃ x ∈ g.accepted i (during ++ [e]),
        g.positionOf (start i).checkpoint (during ++ [e]) < x.seq) ↔
      ∃ current, ((g.run during).member i).consumer.Overtaken signal current)) := by
  subst hrun
  obtain ⟨h, hgiven, hover, hok⟩ := h
  obtain ⟨top, hhighest, hcovers⟩ := covers_of_underWay hfresh h
  have hcheckpoint : ((((begin rs start).run before).run during).member i).consumer.checkpoint =
      (start i).checkpoint := by
    rw [← run_append]
    exact (keeps_run (begin rs start) i (before ++ during)).checkpoint
  have hin := h.lasts during [] (by simp) h.begun
  generalize (begin rs start).run before = g at *
  have hlast : g.positionOf (start i).checkpoint (during ++ [e]) =
      position ((g.run during).step e).store (start i).checkpoint := by
    rw [positionOf, run_append_singleton]
  rw [phaseOf, run_append_singleton] at hover
  have haccepts := le_of_over hcovers.stands hin hgiven hover hok
  rw [hcheckpoint, ← hlast] at haccepts
  rw [accepted_append_singleton]
  -- what is not in hand any more was covered at some moment before
  have hcases : ∀ x ∈ g.accepted i during ++ (g.run during).accepts i e, x.seq ≤ top ∨
      x.seq ≤ g.positionOf (start i).checkpoint (during ++ [e]) ∨
      ∃ current, ((g.run during).member i).consumer.Overtaken signal current ∧ current < x.seq := by
    intro x hx
    rcases List.mem_append.1 hx with hx | hx
    · rcases hcovers.covered x hx with hle | hx
      · exact .inl hle
      · exact .inr (haccepts x (List.mem_append_left _ hx))
    · exact .inr (haccepts x (List.mem_append_right _ hx))
  obtain ⟨earlier, later, hsplit, hreached⟩ := hhighest.reached
  have hsplit' : during ++ [e] = earlier ++ (later ++ [e]) := by rw [hsplit, List.append_assoc]
  constructor
  · intro x hx
    rcases hcases x hx with hle | hle | hovertaken
    · exact .inl ⟨earlier, later ++ [e], hsplit', UInt64.le_trans hle hreached⟩
    · exact .inl ⟨during ++ [e], [], by simp, hle⟩
    · exact .inr hovertaken
  · intro hkept
    have htop := UInt64.le_trans hreached (hkept earlier (later ++ [e]) hsplit')
    constructor
    · rintro ⟨x, hx, hlt⟩
      rcases hcases x hx with hle | hle | ⟨current, hovertaken, -⟩
      · exact absurd (UInt64.le_trans hle htop) (UInt64.not_le.2 hlt)
      · exact absurd hle (UInt64.not_le.2 hlt)
      · exact ⟨current, hovertaken⟩
    · rintro ⟨current, hovertaken⟩
      obtain ⟨hcurrent, x, hx, hlt⟩ := lt_of_overtaken hcovers.stands hgiven hovertaken
      rw [hcheckpoint, ← hlast] at hcurrent
      exact ⟨x, List.mem_append_left _ (hcovers.taken x hx), hcurrent ▸ hlt⟩

end Group

end ChangeRelay
