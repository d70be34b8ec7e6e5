import ChangeRelay.Proofs.Stream.Member

/-!
# Commits one after another

A store in memory that is to refuse nothing, and a pipeline whose changes are committed to it in
batches. Every batch is applied, whatever the cut, and together they do to the data what the
intents of the changes do one by one.
-/

namespace ChangeRelay

open Store (Address Record Records Memory)

namespace Checkpoint

/-! ## Alone with the records -/

/-- The checkpoint at an address can be read, and lies before a number if there is one. -/
def StandsBefore (rs : Records) (a : Address) (n : UInt64) : Prop :=
  ∃ found, decodeRecord a (Assoc.find? a rs) = .ok found ∧ ∀ x ∈ found, x.1 < n

theorem standsBefore_of_absent {rs : Records} {a : Address} (h : Assoc.find? a rs = none)
    (n : UInt64) : StandsBefore rs a n := by
  refine ⟨none, ?_, ?_⟩
  · rw [h]
    rfl
  · intro x hx
    cases hx

theorem standsBefore_of_put {rs : Records} {a : Address} {consumer : String} {seq n : UInt64}
    {time : Int} (h : Assoc.find? a rs = some (.of (document consumer seq time))) (hlt : seq < n) :
    StandsBefore rs a n := by
  refine ⟨some (seq, .of (document consumer seq time)), ?_, ?_⟩
  · have hdecode : decodeSeq (Record.of (document consumer seq time)).value = .ok seq :=
      decodeSeq_document consumer seq time
    rw [h, decodeRecord, hdecode]
  · intro x hx
    cases hx
    exact hlt

namespace Proposal

/-- Alone with a checkpoint before its range, a proposal is applied: it does to the data what its
intents do one by one, and leaves the checkpoint at the end of its range. -/
theorem alone_of_standsBefore {rs : Records} {p : Proposal} (hphase : p.phase = .readCheckpoint)
    (hbefore : StandsBefore rs p.address p.range.first)
    (hoff : ∀ i ∈ p.intents, intentAddress i ≠ p.address) :
    ∃ rs', p.alone rs = (rs', .ok .applied) ∧
      (∀ n, p.range.last < n → StandsBefore rs' p.address n) ∧
      ∀ a, a ≠ p.address → rs'.value a = Data.applyAll rs.value p.intents a := by
  obtain ⟨rs', hstage⟩ : ∃ rs', Memory.stage rs none (batchOf (fun a => Assoc.find? a rs)
      p.intents (p.checkpointOp (Assoc.find? p.address rs))) = .ok rs' :=
    exists_stage_batchOf hoff rfl
  have hvalue := value_of_stage hoff (fun _ _ => rfl) hstage
  refine ⟨rs', ?_, ?_, ?_⟩
  · exact alone_applied hphase ⟨⟨rs, List.mem_singleton_self rs, rfl⟩, hbefore⟩ hstage
  · intro n hlt
    exact standsBefore_of_put (hvalue p.address).1 hlt
  · intro a ha
    exact (hvalue a).2 ha

/-- At a store that refuses nothing a proposal does what it does alone with the records. -/
theorem run_working {s : Memory} (h : s.Working) (p : Proposal) :
    (p.run Memory.get Memory.putBatch s).1.Working ∧
      ((p.run Memory.get Memory.putBatch s).1.records, (p.run Memory.get Memory.putBatch s).2) =
        p.alone s.records := by
  unfold alone
  induction s, p using Proposal.run.induct Memory.get Memory.putBatch with
  | case1 s p r hphase =>
      rw [run_done hphase, run_done hphase]
      exact ⟨h, rfl⟩
  | case2 s p ops hphase s' answer hput ih =>
      obtain ⟨hworking, hsubmit⟩ := h.putBatch ops
      rw [hput] at hworking hsubmit
      rw [run_write hphase, run_write hphase, ← hsubmit, hput]
      exact ih hworking
  | case3 s p hphase ih =>
      rw [h.get] at ih
      rw [run_readCheckpoint hphase, run_readCheckpoint hphase, h.get]
      exact ih h
  | case4 s p cp slots i rest hphase ih =>
      rw [h.get] at ih
      rw [run_readRecord hphase, run_readRecord hphase, h.get]
      exact ih h

/-- At a store that refuses nothing, a proposal with a checkpoint before its range is applied. -/
theorem run_of_standsBefore {s : Memory} (h : s.Working) {p : Proposal}
    (hphase : p.phase = .readCheckpoint)
    (hbefore : StandsBefore s.records p.address p.range.first)
    (hoff : ∀ i ∈ p.intents, intentAddress i ≠ p.address) :
    ∃ s', p.run Memory.get Memory.putBatch s = (s', .ok .applied) ∧ s'.Working ∧
      (∀ n, p.range.last < n → StandsBefore s'.records p.address n) ∧
      ∀ a, a ≠ p.address → s'.records.value a = Data.applyAll s.records.value p.intents a := by
  obtain ⟨rs', halone, hstands, hvalue⟩ := alone_of_standsBefore hphase hbefore hoff
  obtain ⟨hworking, hrun⟩ := run_working h p
  rw [halone, Prod.mk.injEq] at hrun
  obtain ⟨hrecords, hresult⟩ := hrun
  refine ⟨(p.run Memory.get Memory.putBatch s).1, Prod.ext rfl hresult, hworking, ?_, ?_⟩
  · rw [hrecords]
    exact hstands
  · rw [hrecords]
    exact hvalue

end Proposal

end Checkpoint

open Checkpoint (Proposal Data Outcome StandsBefore intentAddress)

/-! ## Batch after batch -/

/-- Runs proposals one after another against a store. -/
def Store.Memory.commitAll (s : Memory) :
    List Proposal → Memory × List (Except StoreFault Outcome)
  | [] => (s, [])
  | p :: rest =>
    let (s, result) := p.run Memory.get Memory.putBatch s
    let (s, results) := s.commitAll rest
    (s, result :: results)

/-- The proposal of a batch of changes, with the time that its checkpoint record shows; none if the
batch has no changes. -/
def Pipeline.proposal? (p : Pipeline) (bucket : String) (batch : Int × List Change) :
    Option Proposal :=
  (p.collect batch.2).range.map fun range =>
    { bucket, consumer := p.consumer, range, intents := (p.collect batch.2).intents,
      time := batch.1 }

/-- The proposals of batches, one after another. -/
def Pipeline.proposals (p : Pipeline) (bucket : String) (batches : List (Int × List Change)) :
    List Proposal :=
  batches.filterMap (p.proposal? bucket)

section Batches

variable {p : Pipeline} {bucket : String} {s : Memory}

theorem Pipeline.KeepsOff.intentsOf {a : Address} (h : p.KeepsOff a) (changes : List Change) :
    ∀ i ∈ changes.flatMap p.intentsOf, intentAddress i ≠ a := by
  intro i hi
  obtain ⟨c, -, hi⟩ := List.mem_flatMap.1 hi
  unfold Pipeline.intentsOf at hi
  cases happly : p.apply c with
  | error e => simp [happly, Except.toOption] at hi
  | ok intents => exact h c intents happly i (by simpa [happly, Except.toOption] using hi)

/-- What is committed of a batch: it is applied, unless it is empty. -/
theorem run_proposal (hoff : p.KeepsOff ⟨bucket, p.consumer⟩) {batch : Int × List Change}
    {proposal : Proposal} (hproposal : p.proposal? bucket batch = some proposal) (h : s.Working)
    (hbefore : ∀ c ∈ batch.2, StandsBefore s.records ⟨bucket, p.consumer⟩ c.seq) :
    ∃ s', proposal.run Memory.get Memory.putBatch s = (s', .ok .applied) ∧ s'.Working ∧
      (∀ n, (∀ c ∈ batch.2, c.seq < n) → StandsBefore s'.records ⟨bucket, p.consumer⟩ n) ∧
      ∀ a, a ≠ ⟨bucket, p.consumer⟩ →
        s'.records.value a = Data.applyAll s.records.value (batch.2.flatMap p.intentsOf) a := by
  obtain ⟨range, hrange, hmake⟩ := Option.map_eq_some_iff.1 hproposal
  obtain ⟨first, hfirst, hfirstSeq⟩ := collect_first hrange
  obtain ⟨last, hlast, hlastSeq⟩ := collect_last hrange
  have haddress : proposal.address = ⟨bucket, p.consumer⟩ := by rw [← hmake]; rfl
  have hrange' : proposal.range = range := by rw [← hmake]
  have hintents : proposal.intents = batch.2.flatMap p.intentsOf := by
    rw [← hmake, ← collect_intents]
  have hphase : proposal.phase = .readCheckpoint := by rw [← hmake]
  have hrun := Proposal.run_of_standsBefore h hphase
  rw [haddress, hrange', hintents, ← hfirstSeq] at hrun
  obtain ⟨s', hrun, hworking, hstands, hvalue⟩ :=
    hrun (hbefore first hfirst) (hoff.intentsOf batch.2)
  refine ⟨s', hrun, hworking, ?_, hvalue⟩
  intro n hn
  apply hstands n
  rw [← hlastSeq]
  exact hn last (List.mem_of_getLast? hlast)

/-- Ascending changes beyond the checkpoint are applied in whatever batches they come. -/
theorem commitAll_applied (hoff : p.KeepsOff ⟨bucket, p.consumer⟩)
    {batches : List (Int × List Change)} (hasc : Ascending (batches.flatMap Prod.snd))
    (h : s.Working)
    (hbefore : ∀ c ∈ batches.flatMap Prod.snd, StandsBefore s.records ⟨bucket, p.consumer⟩ c.seq) :
    (s.commitAll (p.proposals bucket batches)).1.Working ∧
      (∀ result ∈ (s.commitAll (p.proposals bucket batches)).2, result = .ok .applied) ∧
      ∀ a, a ≠ ⟨bucket, p.consumer⟩ →
        (s.commitAll (p.proposals bucket batches)).1.records.value a =
          Data.applyAll s.records.value ((batches.flatMap Prod.snd).flatMap p.intentsOf) a := by
  induction batches generalizing s with
  | nil =>
      refine ⟨h, ?_, fun _ _ => rfl⟩
      intro result hresult
      cases hresult
  | cons batch rest ih =>
      rw [List.flatMap_cons] at hasc hbefore ⊢
      rw [Ascending, List.pairwise_append] at hasc
      obtain ⟨-, hrest, hcross⟩ := hasc
      cases hproposal : p.proposal? bucket batch with
      | none =>
          -- nothing is committed of an empty batch
          have hnil : batch.2 = [] := collect_range_eq_none.1 (Option.map_eq_none_iff.1 hproposal)
          have hskip : p.proposals bucket (batch :: rest) = p.proposals bucket rest := by
            rw [Pipeline.proposals, List.filterMap_cons_none hproposal]
            rfl
          rw [hnil, List.nil_append] at hbefore ⊢
          rw [hskip]
          exact ih hrest h hbefore
      | some proposal =>
          have hfirst : p.proposals bucket (batch :: rest) =
              proposal :: p.proposals bucket rest := by
            rw [Pipeline.proposals, List.filterMap_cons_some hproposal]
            rfl
          obtain ⟨s', hrun, hworking, hstands, hvalue⟩ := run_proposal hoff hproposal h
            fun c hc => hbefore c (List.mem_append_left _ hc)
          -- the checkpoint has come to the end of the batch, before the changes that follow
          have hbefore' : ∀ c ∈ rest.flatMap Prod.snd,
              StandsBefore s'.records ⟨bucket, p.consumer⟩ c.seq :=
            fun c hc => hstands c.seq fun x hx => hcross x hx c hc
          obtain ⟨hworking', hresults, hvalues⟩ := ih hrest hworking hbefore'
          rw [hfirst, Memory.commitAll, hrun]
          refine ⟨hworking', ?_, ?_⟩
          · intro result hresult
            rcases List.mem_cons.1 hresult with rfl | hresult
            · rfl
            · exact hresults result hresult
          · intro a ha
            rw [List.flatMap_append, Data.applyAll_append]
            exact (hvalues a ha).trans (Data.applyAll_congr _ (hvalue a ha))

end Batches

end ChangeRelay
