import ChangeRelay.Proofs.Checkpoint.Proposal
import ChangeRelay.Proofs.Stream.Moves
import ChangeRelay.Proofs.Trigger.Targets
import Mathlib.Data.List.Induction

/-!
# Members of a group

A consumer together with what its batch is made of. Whatever the feed hands out, the changes of a
batch ascend, its range and its intents are theirs, and a cursor without a batch is at or before
the checkpoint.
-/

namespace ChangeRelay

open Checkpoint (Proposal Request)
open Store (Address Record Records BatchOp)

/-! ## Batches -/

/-- The intents of a change; none if its triggers refuse it. -/
def Pipeline.intentsOf (p : Pipeline) (c : Change) : List Intent := (p.apply c).toOption.getD []

theorem Pipeline.intentsOf_of_apply {p : Pipeline} {c : Change} {intents : List Intent}
    (h : p.apply c = .ok intents) : p.intentsOf c = intents := by
  simp [intentsOf, h, Except.toOption]

/-- The batch of changes that were added one by one. -/
def Pipeline.collect (p : Pipeline) (taken : List Change) : Batch :=
  taken.foldl (fun b c => b.push c.seq (p.intentsOf c)) {}

section Batches

variable {p : Pipeline} {taken : List Change} {range : SeqRange}

theorem collect_append_singleton (p : Pipeline) (taken : List Change) (c : Change) :
    p.collect (taken ++ [c]) = (p.collect taken).push c.seq (p.intentsOf c) := by
  simp [Pipeline.collect, List.foldl_append]

theorem collect_intents (p : Pipeline) (taken : List Change) :
    (p.collect taken).intents = taken.flatMap p.intentsOf := by
  induction taken using List.reverseRecOn with
  | nil => rfl
  | append_singleton taken c ih =>
      rw [collect_append_singleton, List.flatMap_append, Batch.push, ih]
      simp

/-- Only an empty batch has no range. -/
theorem collect_range_eq_none : (p.collect taken).range = none ↔ taken = [] := by
  cases taken using List.reverseRecOn with
  | nil => exact ⟨fun _ => rfl, fun _ => rfl⟩
  | append_singleton taken c => simp [collect_append_singleton, Batch.push]

/-- Changes in strictly ascending order. -/
def Ascending (taken : List Change) : Prop := taken.Pairwise fun a b => a.seq < b.seq

theorem Ascending.append_singleton {c : Change} (h : Ascending taken)
    (hlt : ∀ x ∈ taken, x.seq < c.seq) : Ascending (taken ++ [c]) := by
  unfold Ascending
  rw [List.pairwise_append]
  refine ⟨h, List.pairwise_singleton _ _, ?_⟩
  intro x hx y hy
  rw [List.mem_singleton.1 hy]
  exact hlt x hx

/-- The range of a batch ends with its last change. -/
theorem collect_last (h : (p.collect taken).range = some range) :
    ∃ x, taken.getLast? = some x ∧ x.seq = range.last := by
  cases taken using List.reverseRecOn with
  | nil => cases h
  | append_singleton taken c =>
      rw [collect_append_singleton, Batch.push, Option.some_inj] at h
      refine ⟨c, List.getLast?_concat, ?_⟩
      rw [← h]
      split <;> rfl

/-- The range of a batch begins with one of its changes. -/
theorem collect_first (h : (p.collect taken).range = some range) :
    ∃ x ∈ taken, x.seq = range.first := by
  induction taken using List.reverseRecOn generalizing range with
  | nil => cases h
  | append_singleton taken c ih =>
      rw [collect_append_singleton, Batch.push, Option.some_inj] at h
      rw [← h]
      cases hr : (p.collect taken).range with
      | none => exact ⟨c, List.mem_append_right _ (List.mem_singleton_self c), rfl⟩
      | some r =>
          obtain ⟨x, hx, hfirst⟩ := ih hr
          exact ⟨x, List.mem_append_left _ hx, hfirst⟩

/-- All changes of a batch lie in its range. -/
theorem collect_bounds (hasc : Ascending taken) (h : (p.collect taken).range = some range) :
    ∀ x ∈ taken, range.first ≤ x.seq ∧ x.seq ≤ range.last := by
  induction taken using List.reverseRecOn generalizing range with
  | nil => exact fun _ hx => nomatch hx
  | append_singleton taken c ih =>
      rw [Ascending, List.pairwise_append] at hasc
      obtain ⟨hasc, -, hlt⟩ := hasc
      rw [collect_append_singleton, Batch.push, Option.some_inj] at h
      intro x hx
      cases hr : (p.collect taken).range with
      | none =>
          -- the first change of its batch
          rw [collect_range_eq_none] at hr
          have hxc : x = c := by simpa [hr] using hx
          rw [← h, hxc, hr]
          exact ⟨UInt64.le_refl _, UInt64.le_refl _⟩
      | some r =>
          have hbounds := ih hasc hr
          obtain ⟨y, hy, hylast⟩ := collect_last hr
          have hyc : y.seq < c.seq := hlt y (List.mem_of_getLast? hy) c (List.mem_singleton_self c)
          rw [← h, hr]
          rcases List.mem_append.1 hx with hx | hx
          · have hxy := hbounds x hx
            refine ⟨hxy.1, ?_⟩
            have := hlt x hx c (List.mem_singleton_self c)
            exact UInt64.le_of_lt this
          · rw [List.mem_singleton.1 hx]
            have hfirst := (hbounds y (List.mem_of_getLast? hy)).1
            exact ⟨UInt64.le_of_lt (UInt64.lt_of_le_of_lt hfirst hyc), UInt64.le_refl _⟩

end Batches

/-! ## Members -/

/-- A batch is under way. -/
def ConsumerPhase.holdsBatch : ConsumerPhase → Bool
  | .waiting s | .throttled s _ => s.batch.range.isSome
  | .committing _ _ => true
  | _ => false

theorem ConsumerPhase.Quiet.holdsBatch {phase : ConsumerPhase} (h : phase.Quiet) :
    phase.holdsBatch = false := by
  cases h <;> rfl

/-- A consumer, and what its batch is made of. -/
structure Member where
  consumer : Consumer
  /-- The changes of its batch, in the order in which they were added. -/
  taken : List Change := []
  /-- How many subscriptions it was given. -/
  session : Nat := 0

/-- The access to the store that a consumer waits for. -/
def Consumer.request (c : Consumer) : Option Request :=
  match c.phase with
  | .reading => some (.get c.checkpoint)
  | .committing p _ => p.request
  | _ => none

/-- Whether a signal opens a subscription. -/
def Consumer.opens (c : Consumer) (signal : Signal) : Bool :=
  match c.phase, signal with
  | .subscribing _, .subscribed (.ok ()) => true
  | _, _ => false

/-- One step of the consumer. -/
def Member.step (mb : Member) (m : Moment) (signal : Signal) : Member :=
  let c := (mb.consumer.step m signal).1
  { consumer := c
    taken := if c.phase.holdsBatch then mb.taken ++ (mb.consumer.admitted signal).toList else []
    session := if mb.consumer.opens signal then mb.session + 1 else mb.session }

/-- Where the checkpoint at an address stands; a missing one stands for zero. -/
def Checkpoint.position (rs : Records) (a : Address) : UInt64 := (standing rs a).getD 0

/-- A session against the changes that it took. -/
structure Collected (p : Pipeline) (pos : UInt64) (taken : List Change) (s : Session) : Prop where
  batch : s.batch = p.collect taken
  accepted : ∀ x ∈ taken, ∃ intents, p.apply x = .ok intents
  ascending : Ascending taken
  last : ∀ x ∈ taken.getLast?, x.seq = s.cursor
  reached : taken = [] → s.cursor ≤ pos

/-- A proposal against the changes that it is made of. -/
structure Proposes (past : List Records) (c : Consumer) (taken : List Change) (p : Proposal)
    (after : AfterCommit) : Prop where
  range : (c.pipeline.collect taken).range = some p.range
  intents : p.intents = taken.flatMap c.pipeline.intentsOf
  address : p.address = c.checkpoint
  accepted : ∀ x ∈ taken, ∃ intents, c.pipeline.apply x = .ok intents
  ascending : Ascending taken
  grounded : Proposal.Grounded past p p.phase
  goOn : ∀ cursor, after = .goOn cursor → cursor = p.range.last

/-- Where a consumer stands in a phase, when the checkpoint has come to `pos`. -/
inductive Stands (past : List Records) (pos : UInt64) (c : Consumer) (taken : List Change) :
    ConsumerPhase → Prop where
  | quiet {phase : ConsumerPhase} (h : phase.Quiet) (hnone : taken = []) :
      Stands past pos c taken phase
  | subscribing {checkpoint : UInt64} (hle : checkpoint ≤ pos) (hnone : taken = []) :
      Stands past pos c taken (.subscribing checkpoint)
  | waiting {s : Session} (h : Collected c.pipeline pos taken s) :
      Stands past pos c taken (.waiting s)
  | throttled {s : Session} {change : Change} (h : Collected c.pipeline pos taken s)
      (hlt : s.cursor < change.seq) : Stands past pos c taken (.throttled s change)
  | committing {p : Proposal} {after : AfterCommit} (h : Proposes past c taken p after)
      (hpending : p.result? = none) :
      Stands past pos c taken (.committing p after)

section Stands

variable {past past' : List Records} {pos pos' : UInt64} {c : Consumer} {taken : List Change}
  {phase : ConsumerPhase}

theorem Collected.nil (p : Pipeline) {cursor : UInt64} (h : cursor ≤ pos) :
    Collected p pos [] { cursor } :=
  ⟨rfl, by simp, List.Pairwise.nil, by simp, fun _ => h⟩

/-- No change of a session lies beyond its cursor. -/
theorem Collected.le_cursor {p : Pipeline} {s : Session} (h : Collected p pos taken s) :
    ∀ x ∈ taken, x.seq ≤ s.cursor := by
  intro x hx
  -- a batch with a change has a range, and the cursor is at its end
  have hne : taken ≠ [] := List.ne_nil_of_mem hx
  obtain ⟨range, hrange⟩ := Option.ne_none_iff_exists'.1 fun hnone =>
    hne ((collect_range_eq_none (p := p)).1 hnone)
  obtain ⟨y, hy, hlast⟩ := collect_last hrange
  rw [← h.last y hy, hlast]
  exact (collect_bounds h.ascending hrange x hx).2

/-- The range of a batch ends at the cursor. -/
theorem Collected.range_last {p : Pipeline} {s : Session} {range : SeqRange}
    (h : Collected p pos taken s) (hrange : s.batch.range = some range) :
    range.last = s.cursor := by
  rw [h.batch] at hrange
  obtain ⟨y, hy, hlast⟩ := collect_last hrange
  rw [← hlast, h.last y hy]

/-- A change beyond the cursor is added to the batch. -/
theorem Collected.push {p : Pipeline} {s : Session} {change : Change} {intents : List Intent}
    (h : Collected p pos taken s) (hlt : s.cursor < change.seq)
    (happly : p.apply change = .ok intents) :
    Collected p pos (taken ++ [change]) ⟨change.seq, s.batch.push change.seq intents⟩ where
  batch := by
    rw [collect_append_singleton, ← h.batch, Pipeline.intentsOf_of_apply happly]
  accepted x hx := by
    rcases List.mem_append.1 hx with hx | hx
    · exact h.accepted x hx
    · exact ⟨intents, List.mem_singleton.1 hx ▸ happly⟩
  ascending := h.ascending.append_singleton fun x hx =>
    UInt64.lt_of_le_of_lt (h.le_cursor x hx) hlt
  last x hx := by
    rw [List.getLast?_concat, Option.mem_some] at hx
    rw [hx]
  reached hnil := by simp at hnil

/-- A batch with a range can be proposed as it is. -/
theorem Collected.proposes {s : Session} {range : SeqRange} {after : AfterCommit}
    (h : Collected c.pipeline pos taken s) (past : List Records)
    (hrange : s.batch.range = some range) (time : Int)
    (hafter : ∀ cursor, after = .goOn cursor → cursor = s.cursor) :
    Proposes past c taken (c.proposalFor range s.batch.intents time) after where
  range := h.batch ▸ hrange
  intents := by
    rw [← collect_intents, ← h.batch]
    rfl
  address := rfl
  accepted := h.accepted
  ascending := h.ascending
  grounded := .readCheckpoint
  goOn cursor hgoOn := (hafter cursor hgoOn).trans (h.range_last hrange).symm

theorem Collected.mono {p : Pipeline} {s : Session} (h : Collected p pos taken s)
    (hpos : pos ≤ pos') : Collected p pos' taken s :=
  ⟨h.batch, h.accepted, h.ascending, h.last, fun hnil => UInt64.le_trans (h.reached hnil) hpos⟩

theorem Proposes.mono {p : Proposal} {after : AfterCommit} (h : Proposes past c taken p after)
    (hsub : ∀ rs ∈ past, rs ∈ past') : Proposes past' c taken p after :=
  ⟨h.range, h.intents, h.address, h.accepted, h.ascending, h.grounded.mono hsub, h.goOn⟩

/-- A member stands where it stood while others go on. -/
theorem Stands.mono (h : Stands past pos c taken phase) (hsub : ∀ rs ∈ past, rs ∈ past')
    (hpos : pos ≤ pos') : Stands past' pos' c taken phase := by
  cases h with
  | quiet h hnone => exact .quiet h hnone
  | subscribing hle hnone => exact .subscribing (UInt64.le_trans hle hpos) hnone
  | waiting h => exact .waiting (h.mono hpos)
  | throttled h hlt => exact .throttled (h.mono hpos) hlt
  | committing h hpending => exact .committing (h.mono hsub) hpending

/-- A consumer stands by its pipeline and the address of its checkpoint. -/
theorem Stands.of_keeps {c' : Consumer} (h : Stands past pos c taken phase)
    (hkeeps : c.Keeps c') : Stands past pos c' taken phase := by
  cases h with
  | quiet h hnone => exact .quiet h hnone
  | subscribing hle hnone => exact .subscribing hle hnone
  | waiting h => exact .waiting (hkeeps.pipeline ▸ h)
  | throttled h hlt => exact .throttled (hkeeps.pipeline ▸ h) hlt
  | committing h hpending =>
      exact .committing ⟨hkeeps.pipeline ▸ h.range, hkeeps.pipeline ▸ h.intents,
        hkeeps.checkpoint ▸ h.address, hkeeps.pipeline ▸ h.accepted, h.ascending, h.grounded,
        h.goOn⟩ hpending

/-- A session that is about to take a change stands before it. -/
theorem Stands.collected_of_takes {signal : Signal} {s : Session} {change : Change}
    {intents : List Intent} (h : Stands past pos c taken c.phase)
    (htakes : c.Takes signal s change intents) :
    Collected c.pipeline pos taken s ∧ s.cursor < change.seq := by
  rcases htakes.phase with ⟨hphase, -, hlt⟩ | ⟨hphase, -⟩
  · rw [hphase] at h
    cases h with
    | quiet hquiet => cases hquiet
    | waiting h => exact ⟨h, hlt⟩
  · rw [hphase] at h
    cases h with
    | quiet hquiet => cases hquiet
    | throttled h hlt => exact ⟨h, hlt⟩

/-- Where nothing is added, a batch is what it was. -/
theorem Stands.taken_eq (h : Stands past pos c taken phase) :
    (if phase.holdsBatch then taken else []) = taken := by
  have hsession : ∀ s, Collected c.pipeline pos taken s →
      (if s.batch.range.isSome then taken else []) = taken := by
    intro s hs
    cases hr : s.batch.range with
    | none =>
        rw [hs.batch, collect_range_eq_none] at hr
        simp [hr]
    | some range => rfl
  cases h with
  | quiet h hnone => simp [hnone]
  | subscribing hle hnone => simp [hnone]
  | waiting h => exact hsession _ h
  | throttled h hlt => exact hsession _ h
  | committing h hpending => rfl

end Stands

/-! ## Steps -/

/-- A proposal that finds the checkpoint in its way tells where it stands. -/
theorem onRead_conflict {p : Proposal} {a : Address} {rs : Records} {current : UInt64}
    (hreq : p.request = some (.get a))
    (h : (p.onRead (.ok (Assoc.find? a rs))).result? = some (.ok (.conflict current))) :
    current = Checkpoint.position rs p.address := by
  unfold Proposal.onRead at h
  -- only the read of the checkpoint itself decides anything
  split at h
  · rename_i answer hphase heq
    have ha : a = p.address := by simpa [Proposal.request, hphase, eq_comm] using hreq
    cases heq
    split at h
    · simp [Proposal.finish, Proposal.result?] at h
    · simp [Proposal.continueWith_result?] at h
    · rename_i seq record hfound
      split at h
      · have hseq : seq = current := by simpa [Proposal.finish, Proposal.result?] using h
        rw [ha] at hfound
        simp [Checkpoint.position, (Checkpoint.standing_of_decodeRecord hfound).1, hseq]
      · simp [Proposal.continueWith_result?] at h
  · simp [Proposal.continueWith_result?] at h
  · simp [Proposal.finish, Proposal.result?] at h
  · simp [Proposal.finish, Proposal.result?] at h
  · rename_i hphase
    simp [Proposal.request, hphase] at hreq
  · rename_i hphase
    simp [Proposal.request, hphase] at hreq

/-- A signal is true if an answer to a read is what a store of the past held, whose checkpoint has
not come further than `pos`. -/
def TrueTo (past : List Records) (pos : UInt64) (c : Consumer) (signal : Signal) : Prop :=
  ∀ r, signal = .read (.ok r) → ∃ a, c.request = some (.get a) ∧
    ∃ rs ∈ past, Assoc.find? a rs = r ∧ Checkpoint.position rs c.checkpoint ≤ pos

section Step

variable {past : List Records} {pos : UInt64} {mb : Member} {signal : Signal}

/-- What a batch is made of after a step. -/
theorem taken_step (mb : Member) (m : Moment) (signal : Signal) :
    (mb.step m signal).taken =
      if (mb.step m signal).consumer.phase.holdsBatch then
        mb.taken ++ (mb.consumer.admitted signal).toList
      else [] := rfl

/-- A proposal stays one of its batch when it takes a true answer to a read. -/
theorem Proposes.onRead {c : Consumer} {p : Proposal} {after : AfterCommit} {taken : List Change}
    (h : Proposes past c taken p after) (hphase : c.phase = .committing p after)
    {answer : Except StoreFault (Option Record)} (htrue : TrueTo past pos c (.read answer)) :
    Proposes past c taken (p.onRead answer) after := by
  have hground : Proposal.Grounded past p (p.onRead answer).phase := by
    cases answer with
    | error e => exact h.grounded.onRead_error
    | ok r =>
        obtain ⟨a, hreq, rs, hrs, hfind, -⟩ := htrue r rfl
        have hreq' : p.request = some (.get a) := by simpa [Consumer.request, hphase] using hreq
        rw [← hfind]
        exact h.grounded.onRead hrs hreq'
  rw [Proposal.onRead_eq]
  exact ⟨h.range, h.intents, h.address, h.accepted, h.ascending, hground.at_phase _ _, h.goOn⟩

/-- A range that a read finds to be written is one that the checkpoint has passed. -/
theorem Proposes.settled_of_read {c : Consumer} {p : Proposal} {after : AfterCommit}
    {taken : List Change} (h : Proposes past c taken p after)
    (hphase : c.phase = .committing p after) (hpending : p.result? = none)
    {answer : Except StoreFault (Option Record)} (htrue : TrueTo past pos c (.read answer))
    (hresult : (p.onRead answer).result? = some (.ok .applied) ∨
      ∃ current, (p.onRead answer).result? = some (.ok (.conflict current)) ∧
        (p.onRead answer).range.last ≤ current) : (p.onRead answer).range.last ≤ pos := by
  cases answer with
  | error e =>
      -- a read that failed settles nothing
      exfalso
      rcases hresult with h | ⟨current, h, -⟩
      · exact Proposal.onRead_error_result?_ne hpending e _ h
      · exact Proposal.onRead_error_result?_ne hpending e _ h
  | ok r =>
      obtain ⟨a, hreq, rs, hrs, hfind, hle⟩ := htrue r rfl
      have hreq' : p.request = some (.get a) := by simpa [Consumer.request, hphase] using hreq
      rcases hresult with happlied | ⟨current, hconflict, hlast⟩
      · exact absurd happlied (Proposal.onRead_result?_ne hreq' _)
      · rw [← hfind] at hconflict
        have hcurrent := onRead_conflict hreq' hconflict
        rw [h.address] at hcurrent
        exact UInt64.le_trans hlast (hcurrent ▸ hle)

/-- An answer to a proposal leaves its consumer standing. -/
theorem Stands.answered {c c' : Consumer} {p : Proposal} {after : AfterCommit}
    {taken : List Change} {phase : ConsumerPhase} (h : Proposes past c taken p after)
    (hkeeps : c.Keeps c') (hanswered : Consumer.Answered p after phase)
    (hsettled : (p.result? = some (.ok .applied) ∨
      ∃ current, p.result? = some (.ok (.conflict current)) ∧ p.range.last ≤ current) →
        p.range.last ≤ pos) :
    Stands past pos c' (if phase.holdsBatch then taken else []) phase := by
  cases hanswered with
  | further hnone => exact (Stands.committing h hnone).of_keeps hkeeps
  | quiet hquiet =>
      rw [hquiet.holdsBatch]
      exact .quiet hquiet rfl
  | settled hgoOn hresult =>
      have hle := hsettled hresult
      rw [← h.goOn _ hgoOn] at hle
      exact .waiting (Collected.nil _ hle)

/-- The store's answer to a batch leaves a member standing, whatever was read before. -/
theorem Stands.wrote (h : Stands past pos mb.consumer mb.taken mb.consumer.phase) (m : Moment)
    {p : Proposal} {after : AfterCommit} (hphase : mb.consumer.phase = .committing p after)
    {answer : Except StoreFault Unit} {past' : List Records} {pos' : UInt64}
    (hpos : answer = .ok () → p.range.last ≤ pos') :
    Stands past' pos' (mb.step m (.wrote answer)).consumer (mb.step m (.wrote answer)).taken
      (mb.step m (.wrote answer)).consumer.phase := by
  have hturns := mb.consumer.proposed_turns (p.onWrite answer) after m
  have hstep : (mb.step m (.wrote answer)).consumer =
      (mb.consumer.proposed (p.onWrite answer) after m).1 := by
    simp only [Member.step, Consumer.step, hphase]
  have hnone : mb.consumer.admitted (.wrote answer) = none := by
    simp only [Consumer.admitted, hphase]
  rw [hphase] at h
  cases h with
  | quiet hquiet => cases hquiet
  | committing h hpending =>
      -- the answer ends the attempt, and what comes next rests on no read before it
      have h' : Proposes past' mb.consumer mb.taken (p.onWrite answer) after := by
        have hground := Proposal.Grounded.onWrite past' p answer
        rw [Proposal.onWrite_eq]
        exact ⟨h.range, h.intents, h.address, h.accepted, h.ascending, hground.at_phase _ _, h.goOn⟩
      have hlast : (p.onWrite answer).range.last = p.range.last := by rw [Proposal.onWrite_eq]
      rw [taken_step, hnone, Option.toList_none, List.append_nil, hstep]
      refine Stands.answered h' hturns.keeps hturns.phase ?_
      rintro (happlied | ⟨current, hconflict, -⟩)
      · rw [hlast]
        apply hpos
        cases answer with
        | ok => rfl
        | error e => exact absurd happlied (p.onWrite_error_result?_ne e)
      · exact absurd hconflict (p.onWrite_result?_ne_conflict answer current)

/-- Every other move of a consumer takes it to where it stands with what it then took. -/
theorem Stands.move {c : Consumer} {taken : List Change} {phase : ConsumerPhase}
    (h : Stands past pos c taken c.phase) (hmove : c.Move signal phase)
    (htrue : TrueTo past pos c signal) (hsignal : ∀ answer, signal ≠ .wrote answer) :
    Stands past pos c
      (if phase.holdsBatch then taken ++ (c.admitted signal).toList else []) phase := by
  cases hmove with
  -- move by move: what is taken goes into the batch, and a cursor is moved by nothing else
  | stay hnone hskip =>
      rw [hnone, Option.toList_none, List.append_nil, h.taken_eq]
      exact h
  | leave hquiet =>
      rw [hquiet.holdsBatch]
      exact .quiet hquiet rfl
  | found hphase hs hfound =>
      obtain ⟨a, hreq, rs, hrs, hfind, hle⟩ := htrue _ hs
      have ha : a = c.checkpoint := by simpa [Consumer.request, hphase, eq_comm] using hreq
      rw [← hfind, ha] at hfound
      rw [Checkpoint.position, (Checkpoint.standing_of_decodeRecord hfound).1] at hle
      exact .subscribing hle rfl
  | opened hphase hs =>
      rw [hphase] at h
      cases h with
      | quiet hquiet => cases hquiet
      | subscribing hle hnone => exact .waiting (Collected.nil _ hle)
  | held hphase hs hlt hnone =>
      rw [hphase] at h
      have htaken := h.taken_eq
      cases h with
      | quiet hquiet => cases hquiet
      | waiting h =>
          rw [hnone, Option.toList_none, List.append_nil]
          exact htaken.symm ▸ .throttled h hlt
  | @took s change intents htakes =>
      have hcol := h.collected_of_takes htakes
      rw [htakes.admitted]
      exact .waiting (hcol.1.push hcol.2 htakes.accepted)
  | @tookFull s change intents range time htakes hrange =>
      have hcol := h.collected_of_takes htakes
      rw [htakes.admitted]
      refine .committing ((hcol.1.push hcol.2 htakes.accepted).proposes past hrange time ?_) ?_
      · intro cursor hgoOn
        cases hgoOn
        rfl
      · rfl
  | @flushed s range time after hphase hnone hrange hafter =>
      have hcol : Collected c.pipeline pos taken s := by
        rcases hphase with hphase | ⟨change, hphase⟩
        · rw [hphase] at h
          cases h with
          | quiet hquiet => cases hquiet
          | waiting h => exact h
        · rw [hphase] at h
          cases h with
          | quiet hquiet => cases hquiet
          | throttled h hlt => exact h
      rw [hnone, Option.toList_none, List.append_nil]
      refine .committing (hcol.proposes past hrange time ?_) rfl
      exact fun cursor hgoOn => (hafter cursor hgoOn).2.1
  | drained hphase hs hrange hempty =>
      rw [hphase] at h
      cases h with
      | quiet hquiet => cases hquiet
      | waiting h =>
          -- a batch without a range is empty
          rw [h.batch] at hrange hempty
          rw [collect_range_eq_none] at hrange
          rw [hrange] at hempty
          cases hempty
  | read hphase hs hanswered =>
      have hnone : c.admitted signal = none := by simp only [Consumer.admitted, hphase]
      rw [hnone, Option.toList_none, List.append_nil]
      rw [hphase] at h
      rw [hs] at htrue
      cases h with
      | quiet hquiet => cases hquiet
      | committing h hpending =>
          refine Stands.answered (h.onRead hphase htrue) (Consumer.Keeps.refl c) hanswered ?_
          exact h.settled_of_read hphase hpending htrue
  | wrote hphase hs => exact absurd hs (hsignal _)

/-- Every other true signal leaves a member standing. -/
theorem Stands.step (h : Stands past pos mb.consumer mb.taken mb.consumer.phase) (m : Moment)
    (htrue : TrueTo past pos mb.consumer signal) (hsignal : ∀ answer, signal ≠ .wrote answer) :
    Stands past pos (mb.step m signal).consumer (mb.step m signal).taken
      (mb.step m signal).consumer.phase := by
  obtain ⟨hkeeps, hmove⟩ := mb.consumer.step_turns m signal
  exact (h.move hmove htrue hsignal).of_keeps hkeeps

end Step

/-- A member that waits for the answer to a batch. -/
theorem committing_of_request {c : Consumer} {ops : List BatchOp}
    (h : c.request = some (.putBatch ops)) :
    ∃ p after, c.phase = .committing p after ∧ p.phase = .write ops := by
  unfold Consumer.request at h
  split at h
  · simp at h
  · rename_i p after hphase
    exact ⟨p, after, hphase, Proposal.phase_of_request_put h⟩
  · cases h

/-- The intents of a batch keep off what its pipeline keeps off. -/
theorem Proposes.keepsOff {c : Consumer} {taken : List Change} {p : Proposal} {after : AfterCommit}
    {past : List Records}
    (h : Proposes past c taken p after) (hoff : c.pipeline.KeepsOff p.address) :
    ∀ i ∈ p.intents, Checkpoint.intentAddress i ≠ p.address := by
  intro i hi
  rw [h.intents] at hi
  obtain ⟨x, hx, hix⟩ := List.mem_flatMap.1 hi
  obtain ⟨intents, happly⟩ := h.accepted x hx
  rw [Pipeline.intentsOf_of_apply happly] at hix
  exact hoff x intents happly i hix

end ChangeRelay
