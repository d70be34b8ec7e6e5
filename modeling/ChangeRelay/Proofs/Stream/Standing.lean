import ChangeRelay.Proofs.Stream.World

/-!
# Standing whatever others write

A member stands against a position that the checkpoint was never seen beyond, also where others
write the checkpoint itself and take it back. Nothing is asked of the triggers: a batch that is
written leaves the checkpoint at the end of its range in any case.
-/

namespace ChangeRelay

open Checkpoint (Proposal position standing)
open Store (Address Record Records BatchOp Fate Memory)

/-- What is in a batch was accepted by the triggers. -/
theorem Stands.accepted {known : List Records} {pos : UInt64} {c : Consumer} {taken : List Change}
    {phase : ConsumerPhase} (h : Stands known pos c taken phase) :
    ∀ x ∈ taken, ∃ intents, c.pipeline.apply x = .ok intents := by
  intro x hx
  cases h with
  | quiet hq hnone =>
      rw [hnone] at hx
      cases hx
  | subscribing hle hnone =>
      rw [hnone] at hx
      cases hx
  | waiting h => exact h.accepted x hx
  | throttled h hlt => exact h.accepted x hx
  | committing h hpending => exact h.accepted x hx

namespace Group

variable {ι : Type} {g : Group ι} {pos pos' : UInt64} {i j : ι}

/-- What a member proposed whose batch is written. -/
structure Committed (g : Group ι) (i : ι) (rs : Records) (p : Proposal) (after : AfterCommit) :
    Prop where
  phase : (g.member i).consumer.phase = .committing p after
  proposes : Proposes g.past (g.member i).consumer (g.member i).taken p after
  reaches : standing rs (g.member i).consumer.checkpoint = some p.range.last

theorem committed_of_stage
    (h : Stands g.past pos (g.member i).consumer (g.member i).taken (g.member i).consumer.phase)
    {ops : List BatchOp} (hreq : (g.member i).consumer.request = some (.putBatch ops))
    {rs : Records} (hs : Memory.stage g.store none ops = .ok rs) :
    ∃ p after, Committed g i rs p after ∧ p.phase = .write ops := by
  obtain ⟨p, after, hphase, hwrite⟩ := committing_of_request hreq
  rw [hphase] at h
  cases h with
  | quiet hquiet => cases hquiet
  | committing hp hpending =>
      have hground := hp.grounded
      rw [hwrite] at hground
      exact ⟨p, after, ⟨hphase, hp, hp.address ▸ hground.reaches hs⟩, hwrite⟩

variable [DecidableEq ι]

/-- A store is one of its own past. -/
theorem present_step (h : g.store ∈ g.past) (e : Event ι) :
    (g.step e).store ∈ (g.step e).past := by
  cases e with
  | signal i m s =>
      simp only [step]
      split <;> exact h
  | read i m fault =>
      simp only [step]
      split <;> exact h
  | write i m fate =>
      simp only [step]
      split
      · exact List.mem_cons_self
      · exact h
  | restart i settings circuit => exact h
  | foreign a action => exact List.mem_cons_self

/-- A member stands that takes a step in which it writes nothing and reads what is true. -/
theorem stands_stepMember
    (h : Stands g.past pos (g.member j).consumer (g.member j).taken (g.member j).consumer.phase)
    (i : ι) (m : Moment) {s : Signal} (htrue : j = i → TrueTo g.past pos (g.member j).consumer s)
    (hs : ∀ answer, s ≠ .wrote answer) :
    Stands g.past pos ((g.stepMember i m s).member j).consumer
      ((g.stepMember i m s).member j).taken ((g.stepMember i m s).member j).consumer.phase := by
  rw [stepMember_member]
  split
  · rename_i hj
    subst hj
    exact h.step m (htrue rfl) hs
  · exact h

/-- A member stands whatever becomes of the batch of another, or of its own. -/
theorem stands_stepStore
    (h : Stands g.past pos (g.member j).consumer (g.member j).taken (g.member j).consumer.phase)
    {i : ι} {ops : List BatchOp} (hreq : (g.member i).consumer.request = some (.putBatch ops))
    (m : Moment) (fate : Fate) (hle : pos ≤ pos')
    (hafter : position (g.store.submit ops fate).1 (g.member j).consumer.checkpoint ≤ pos') :
    Stands (g.stepStore i m ops fate).past pos' ((g.stepStore i m ops fate).member j).consumer
      ((g.stepStore i m ops fate).member j).taken
      ((g.stepStore i m ops fate).member j).consumer.phase := by
  by_cases hj : j = i
  · subst hj
    have hmember : (g.stepStore j m ops fate).member j =
        (g.member j).step m (.wrote (g.store.submit ops fate).2) := Function.update_self ..
    rw [hmember]
    obtain ⟨p, after, hphase, -⟩ := committing_of_request hreq
    refine h.wrote m hphase fun hok => ?_
    rcases Store.submit_cases g.store ops fate with ⟨-, hs⟩ | ⟨-, -, e, hanswer⟩
    · -- what is written ends where the checkpoint then stands
      obtain ⟨p', after', hcommitted, -⟩ := committed_of_stage h hreq hs
      have hsame := hcommitted.phase.symm.trans hphase
      rw [ConsumerPhase.committing.injEq] at hsame
      rw [position, hcommitted.reaches, hsame.1] at hafter
      exact hafter
    · rw [hanswer] at hok
      cases hok
  · have hmember : (g.stepStore i m ops fate).member j = g.member j := Function.update_of_ne hj ..
    rw [hmember]
    exact h.mono (fun _ => List.mem_cons_of_mem _) hle

/-- A member stands whatever happens, against a position that the checkpoint is not beyond. -/
theorem stands_step
    (h : Stands g.past pos (g.member j).consumer (g.member j).taken (g.member j).consumer.phase)
    (hpresent : g.store ∈ g.past)
    (hbefore : position g.store (g.member j).consumer.checkpoint ≤ pos) (e : Event ι)
    (hle : pos ≤ pos')
    (hafter : position (g.step e).store (g.member j).consumer.checkpoint ≤ pos') :
    Stands (g.step e).past pos' ((g.step e).member j).consumer ((g.step e).member j).taken
      ((g.step e).member j).consumer.phase := by
  have hmono := h.mono (fun _ hs => hs) hle
  cases e with
  | signal i m s =>
      cases hs : s.ofStore with
      | true =>
          rw [step, hs]
          exact hmono
      | false =>
          rw [step_signal g i m hs]
          apply stands_stepMember hmono i m
          · intro _ r hr
            rw [hr] at hs
            cases hs
          · intro answer hanswer
            rw [hanswer] at hs
            cases hs
  | read i m fault =>
      simp only [step]
      split
      · rename_i a hreq
        apply stands_stepMember hmono i m
        · intro hj r hr
          subst hj
          cases fault with
          | some e => cases hr
          | none =>
              cases hr
              exact ⟨a, hreq, g.store, hpresent, rfl, UInt64.le_trans hbefore hle⟩
        · intro answer hanswer
          cases hanswer
      · exact hmono
  | write i m fate =>
      simp only [step] at hafter ⊢
      split
      · rename_i ops hreq
        rw [hreq] at hafter
        exact stands_stepStore h hreq m fate hle hafter
      · exact hmono
  | restart i settings circuit =>
      simp only [step]
      by_cases hj : j = i
      · subst hj
        rw [Function.update_self]
        exact .quiet .starting rfl
      · rw [Function.update_of_ne hj]
        exact hmono
  | foreign a action => exact hmono.mono (fun _ => List.mem_cons_of_mem _) (UInt64.le_refl _)

end Group

namespace World

variable {ι : Type} [DecidableEq ι] {w : World ι} {like : Consumer} {pos pos' : UInt64} {j : ι}

/-- The store of a world is one of its past. -/
theorem present_step (h : w.group.store ∈ w.group.past) (e : Event ι) :
    (w.step e).group.store ∈ (w.step e).group.past :=
  w.group_induct (P := fun g => g.store ∈ g.past) e h fun e' _ => Group.present_step h e'

/-- A member attends to the log whatever happens, against a position that the checkpoint is not
beyond. -/
theorem Attends.step (h : Attends w.group.past like pos w j) (hord : Ordered w)
    (hpresent : w.group.store ∈ w.group.past)
    (hbefore : position w.group.store like.checkpoint ≤ pos) (e : Event ι) (hle : pos ≤ pos')
    (hafter : position (w.step e).group.store like.checkpoint ≤ pos') :
    Attends (w.step e).group.past like pos' (w.step e) j where
  stands := by
    have hcheckpoint := h.keeps.checkpoint
    refine w.group_induct (P := fun g => position g.store like.checkpoint ≤ pos' →
      Stands g.past pos' (g.member j).consumer (g.member j).taken (g.member j).consumer.phase) e
      ?_ ?_ hafter
    · exact fun _ => h.stands.mono (fun _ hs => hs) hle
    · intro e' _ hafter'
      apply Group.stands_step h.stands hpresent ?_ e' hle ?_
      · rwa [hcheckpoint]
      · rwa [hcheckpoint]
  keeps := keeps_step h.keeps e
  follows := (h.follows_step hord e).mono (fun _ hp => hp) hle

end World

end ChangeRelay
